/-
  Callbacks that add timers to the heap whose `tick` has called them.

  When the callback returns, `tick` takes the first timer off.  That is the timer
  whose callback has been called, unless the callback has added one that expires
  before it.

  * `Moves`: what one action does to a `tick` whose callbacks only add timers;
  * `Calm`, `Late`: before and after a timer has been added that expires too early;
  * `honest_iff`: when a `tick` runs the callback of every timer that it deletes,
    and none twice.
-/
import MyHttpServer.Proof.HeapRun

namespace MyHttpServer

open Function

/-! ## What a `tick` should do -/

/-- A timer is deleted after its callback has been called, or without a callback,
    and no callback is called twice. -/
structure Honest (mem : Timers) (es : List TimerEvent) : Prop where
  deleted : ∀ i p, es[i]? = some (.deleted p) →
    .ran p ∈ es.take i ∨ ∃ timer, mem p = some timer ∧ timer.cbFunc = none
  once : (HeapRun.fired es).Nodup

namespace Honest
variable {mem : Timers} {es : List TimerEvent} {e : TimerEvent} {p : TimerPtr}

theorem nil (mem : Timers) : Honest mem [] := ⟨nofun, List.nodup_nil⟩

theorem init (h : Honest mem (es ++ [e])) : Honest mem es where
  deleted i p hi := by
    have hlt := (List.getElem?_eq_some_iff.1 hi).1
    have := h.deleted i p (by rw [List.getElem?_append_left hlt, hi])
    rwa [List.take_append_of_le_length hlt.le] at this
  once := by
    have := h.once
    rw [HeapRun.fired_append] at this
    exact this.of_append_left

theorem snoc (h : Honest mem es)
    (hd : ∀ p, e = .deleted p →
      .ran p ∈ es ∨ ∃ timer, mem p = some timer ∧ timer.cbFunc = none)
    (hr : ∀ p, e = .ran p → p ∉ HeapRun.fired es) : Honest mem (es ++ [e]) where
  deleted i p hi := by
    by_cases hlt : i < es.length
    · rw [List.getElem?_append_left hlt] at hi
      rw [List.take_append_of_le_length hlt.le]
      exact h.deleted i p hi
    · rw [List.getElem?_append_right (not_lt.1 hlt)] at hi
      obtain ⟨hlen, he⟩ := List.getElem?_eq_some_iff.1 hi
      have hz : i - es.length = 0 := by
        simp only [List.length_singleton] at hlen; omega
      simp only [hz, List.getElem_singleton] at he
      rw [List.take_append_of_le_length (by omega), List.take_of_length_le (not_lt.1 hlt)]
      exact hd p he
  once := by
    rw [HeapRun.fired_append]
    cases e with
    | added p => exact (List.append_nil _).symm ▸ h.once
    | deleted p => exact (List.append_nil _).symm ▸ h.once
    | ran p => exact h.once.append (List.nodup_singleton p) (List.disjoint_singleton.2 (hr p rfl))

end Honest

theorem mem_fired {es : List TimerEvent} {p : TimerPtr} : p ∈ HeapRun.fired es ↔ .ran p ∈ es := by
  rw [HeapRun.fired, List.mem_filterMap]
  constructor
  · rintro ⟨e, he, hp⟩
    cases e <;> cases hp
    exact he
  · intro h
    exact ⟨_, h, rfl⟩

/-- The callbacks only add timers. -/
def HeapAction.Adds : HeapAction → Prop
  | .call (.add _) | .go => True
  | .call .pop | .call (.del _) | .call (.tick _) => False

namespace HeapRun

/-- The timer whose callback is running in the `tick` called last. -/
def running (s : HeapRun) : Option TimerPtr := s.ticks.head?.bind TickCall.running

theorem running_of_busy {s : HeapRun} (h : s.busy = true) : s.running = none := by
  cases hs : s.ticks with
  | nil => simp [running, hs]
  | cons t ticks =>
    simp only [busy, hs, Option.isNone_iff_eq_none] at h
    simp [running, hs, h]

/-- A timer that the callback of `p` adds does not expire before `p`. -/
def Respects (key : TimerPtr → ℤ) (s : HeapRun) : HeapAction → Prop
  | .call (.add (some x)) => ∀ p, s.running = some p → key p ≤ key x
  | _ => True

theorem not_respects {key : TimerPtr → ℤ} {s : HeapRun} {a : HeapAction}
    (h : ¬ s.Respects key a) :
    ∃ x p, a = .call (.add (some x)) ∧ s.running = some p ∧ key x < key p := by
  rcases a with ((_ | x) | _ | _ | _) | _
  · exact absurd trivial h
  · simp only [Respects, not_forall, not_le] at h
    obtain ⟨p, hp, hlt⟩ := h
    exact ⟨x, p, rfl, hp, hlt⟩
  · exact absurd trivial h
  · exact absurd trivial h
  · exact absurd trivial h
  · exact absurd trivial h

def Orderly (key : TimerPtr → ℤ) : HeapRun → List HeapAction → Prop
  | _, [] => True
  | s, a :: as => s.Respects key a ∧ ∀ s', s.act a = .ok s' → Orderly key s' as

/-! ## One action -/

/-- What an action does with the heap `f` of the timers `C`, in the only `tick`. -/
inductive Moves (key : TimerPtr → ℤ) (mem₀ : Timers) (cur : ℤ) (C : Multiset TimerPtr)
    (f : ℕ → TimerPtr) (s : HeapRun) :
    HeapAction → Multiset TimerPtr → (ℕ → TimerPtr) → HeapRun → Prop
  | skip {a} : (∀ x, a = .call (.add (some x)) → s.busy = true) → Moves key mem₀ cur C f s a C f s
  | add {x g s'} : s.busy = false → s'.mem = s.mem → s'.ticks = s.ticks →
      s'.events = s.events ++ [.added x] →
      (0 < s.heap.curSize → key (f 0) ≤ key x → g 0 = f 0) →
      Moves key mem₀ cur C f s (.call (.add (some x))) (x ::ₘ C) g s'
  /-- `tick` returns -/
  | ret {s'} : s.running = none → (∀ p ∈ C, cur < key p) → s'.mem = s.mem →
      s'.ticks = [] → s'.events = s.events → Moves key mem₀ cur C f s .go C f s'
  | run {timer s'} : s.running = none → f 0 ∈ C → key (f 0) ≤ cur → s.mem (f 0) = some timer →
      timer.cbFunc ≠ none → s'.mem = s.mem → s'.ticks ≠ [] → s'.running = some (f 0) →
      s'.events = s.events ++ [.ran (f 0)] → Moves key mem₀ cur C f s .go C f s'
  | delete {g s'} : s.ticks ≠ [] → f 0 ∈ C →
      (s.running = none → ∃ timer, mem₀ (f 0) = some timer ∧ timer.cbFunc = none) →
      s'.mem = update s.mem (f 0) none → s'.ticks ≠ [] → s'.running = none →
      s'.events = s.events ++ [.deleted (f 0)] → Moves key mem₀ cur C f s .go (C.erase (f 0)) g s'

/-- What is not honest stays so. -/
theorem Moves.honest {key : TimerPtr → ℤ} {mem₀ : Timers} {cur : ℤ} {C C' : Multiset TimerPtr}
    {f g : ℕ → TimerPtr} {s s' : HeapRun} {a : HeapAction}
    (hm : Moves key mem₀ cur C f s a C' g s') (h : Honest mem₀ s'.events) :
    Honest mem₀ s.events := by
  cases hm with
  | skip => exact h
  | add _ _ _ he => exact (he ▸ h).init
  | ret _ _ _ _ he => exact he ▸ h
  | run _ _ _ _ _ _ _ _ he => exact (he ▸ h).init
  | delete _ _ _ _ _ _ he => exact (he ▸ h).init

/-- A run of one `tick`, which began in the memory `mem₀`, and whose callbacks only
    add timers. -/
structure OneTick (key : TimerPtr → ℤ) (mem₀ : Timers) (cur : ℤ) (timers C : Multiset TimerPtr)
    (f : ℕ → TimerPtr) (s : HeapRun) : Prop extends Held key timers C f s where
  placed : Placed s
  within : s.mem.Within mem₀
  ticks : s.ticks = [] ∨ ∃ t, s.ticks = [t] ∧ t.cur = cur
  full : s.running ≠ none → 0 < s.heap.curSize

namespace OneTick
variable {key : TimerPtr → ℤ} {mem₀ : Timers} {cur : ℤ} {timers C : Multiset TimerPtr}
  {f : ℕ → TimerPtr} {s s' : HeapRun}

/-- `pop_timer` at the end of a round. -/
theorem finish (h : OneTick key mem₀ cur timers C f s) {t : TickCall} (hs : s.ticks = [t])
    (hcur : t.cur = cur) (hpos : 0 < s.heap.curSize) (hr : s.finish t [] = .ok s') :
    ∃ g, OneTick key mem₀ cur timers (C.erase (f 0)) g s' ∧
      s'.mem = update s.mem (f 0) none ∧ s'.ticks ≠ [] ∧ s'.running = none ∧
      s'.events = s.events ++ [.deleted (f 0)] := by
  have hplaced := h.placed.finish hs hr
  obtain ⟨s₁, tmp, hpop, -, rfl⟩ := finish_ok hr
  rcases h.popTimer hpop with ⟨hz, -⟩ | ⟨-, -, heap, g, rfl, hg⟩
  · omega
  have hwithin : Timers.Within (update s.mem (f 0) none) mem₀ := by
    intro p timer hp
    by_cases hpf : p = f 0
    · subst hpf
      simp at hp
    · rw [update_of_ne hpf] at hp
      exact h.within p timer hp
  refine ⟨g, ⟨⟨hg.sorted, hg.timed, hg.count⟩, hplaced, hwithin, .inr ⟨_, rfl, hcur⟩, nofun⟩,
    rfl, nofun, rfl, rfl⟩

/-- **What one action does.** -/
theorem step (h : OneTick key mem₀ cur timers C f s) {a : HeapAction} (ha : a.Adds)
    (hr : s.act a = .ok s') :
    ∃ C' g, OneTick key mem₀ cur timers C' g s' ∧ Moves key mem₀ cur C f s a C' g s' := by
  obtain ⟨-, -, -, hplaced, -⟩ := h.act h.placed hr
  cases a with
  | call c =>
    rw [HeapRun.act] at hr
    split at hr
    · rename_i hb
      cases hr
      exact ⟨C, f, h, .skip fun _ _ => hb⟩
    rename_i hb
    cases c with
    | pop => exact ha.elim
    | del x => exact ha.elim
    | tick cur => exact ha.elim
    | add x =>
      cases x with
      | none =>
        have hs : s' = s := by
          cases hr
          simp
        subst hs
        exact ⟨C, f, h, .skip fun y hy => by cases hy⟩
      | some x =>
        obtain ⟨heap, g, rfl, hg, hfirst⟩ := h.addTimer hr
        have hpos := (hg.sorted.first_le (Multiset.mem_cons_self x C)).1
        exact ⟨_, g, ⟨hg, hplaced, h.within, h.ticks, fun _ => hpos⟩,
          .add (by simpa using hb) rfl rfl rfl hfirst⟩
  | go =>
    rw [HeapRun.act, HeapRun.go] at hr
    rcases h.ticks with hs | ⟨t, hs, hcur⟩
    · rw [hs] at hr
      cases hr
      exact ⟨C, f, h, .skip fun y hy => by cases hy⟩
    rw [hs] at hr
    have hticks : s.ticks ≠ [] := by simp [hs]
    cases hrun : t.running with
    | some p =>
      have hsome : s.running = some p := by simp [running, hs, hrun]
      simp only [hrun, Option.isSome_some, if_true] at hr
      have hpos := h.full (by simp [hsome])
      obtain ⟨g, hg, hmem, ht, hn, he⟩ := h.finish hs hcur hpos hr
      exact ⟨_, g, hg, .delete hticks (h.sorted.first_mem hpos) (by simp [hsome]) hmem ht hn he⟩
    | none =>
      have hnone : s.running = none := by simp [running, hs, hrun]
      simp only [hrun, Option.isSome_none, Bool.false_eq_true, if_false] at hr
      have htmp : s.heap.array[0]? = some t.tmp := h.placed.head t (by simp [hs]) hrun
      have hfirst : 0 < s.heap.curSize → t.tmp = some (f 0) := by
        intro hpos
        have := h.sorted.cells 0 hpos
        rw [htmp] at this
        exact Option.some.inj this
      rcases enter_ok htmp hr with ⟨rfl, hret⟩ | ⟨hpos, p, timer, hp, hmem, hle, hcb⟩
      · refine ⟨C, f, ⟨⟨h.sorted, h.timed, h.count⟩, hplaced, h.within, .inl rfl,
            fun hn => absurd rfl hn⟩,
          .ret hnone ?_ rfl rfl rfl⟩
        intro q hq
        obtain ⟨hpos, hle⟩ := h.sorted.first_le hq
        rcases hret with hz | hnull | ⟨p, timer, hp, hmem, hlt⟩
        · omega
        · rw [hfirst hpos] at hnull
          cases hnull
        · rw [hfirst hpos] at hp
          cases hp
          rw [h.timed _ _ hmem, hcur] at hlt
          exact hlt.trans_le hle
      · rw [hfirst hpos] at hp
        cases hp
        have hmemC := h.sorted.first_mem hpos
        rw [h.timed _ _ hmem, hcur] at hle
        rcases hcb with ⟨hnull, hr⟩ | ⟨hcb, rfl⟩
        · obtain ⟨g, hg, hmem', ht, hn, he⟩ := h.finish hs hcur hpos hr
          exact ⟨_, g, hg, .delete hticks hmemC (fun _ => ⟨timer, h.within _ _ hmem, hnull⟩)
            hmem' ht hn he⟩
        · exact ⟨C, f, ⟨h.ran _ _, hplaced, h.within, .inr ⟨_, rfl, hcur⟩, fun _ => hpos⟩,
            .run hnone hmemC hle hmem hcb rfl (List.cons_ne_nil _ _) rfl rfl⟩

end OneTick

/-! ## Before and after a timer that expires too early -/

/-- A timer that should be fired and taken off the heap by a `tick` at `cur`. -/
structure Due (key : TimerPtr → ℤ) (mem₀ : Timers) (cur : ℤ) (p : TimerPtr) : Prop where
  le : key p ≤ cur
  callback : ∃ timer, mem₀ p = some timer ∧ timer.cbFunc ≠ none

/-- No timer has been added that expires before the one whose callback added it:
    the timer whose callback is running is the first one. -/
structure Calm (key : TimerPtr → ℤ) (mem₀ : Timers) (cur : ℤ) (f : ℕ → TimerPtr)
    (s : HeapRun) : Prop where
  first : ∀ p, s.running = some p → f 0 = p ∧ .ran p ∈ s.events ∧ Due key mem₀ cur p
  ran : ∀ p, .ran p ∈ s.events → s.mem p = none ∨ s.running = some p
  honest : Honest mem₀ s.events

/-- The timer `p`, whose callback has been called, is still in the heap, and will
    not be the next one to be deleted. -/
structure Late (key : TimerPtr → ℤ) (mem₀ : Timers) (cur : ℤ) (C : Multiset TimerPtr)
    (f : ℕ → TimerPtr) (p : TimerPtr) (s : HeapRun) : Prop where
  ran : .ran p ∈ s.events
  mem : p ∈ C
  due : Due key mem₀ cur p
  ticks : s.ticks ≠ []
  behind : ∀ q, s.running = some q → (f 0 = q ∧ q ≠ p) ∨ key (f 0) < key p

section
variable {key : TimerPtr → ℤ} {mem₀ : Timers} {cur : ℤ} {timers C C' : Multiset TimerPtr}
  {f g : ℕ → TimerPtr} {s s' : HeapRun} {a : HeapAction}

/-- A timer whose callback has returned has been deleted. -/
theorem Calm.dead (hc : Calm key mem₀ cur f s) (hn : s.running = none) {p : TimerPtr}
    (hp : .ran p ∈ s.events) : s.mem p = none := by
  rcases hc.ran p hp with hd | hr
  · exact hd
  · rw [hn] at hr
    cases hr

theorem Calm.step (h : OneTick key mem₀ cur timers C f s) (hc : Calm key mem₀ cur f s)
    (hm : Moves key mem₀ cur C f s a C' g s') (ha : s.Respects key a) : Calm key mem₀ cur g s' := by
  cases hm with
  | skip => exact hc
  | @add x g s' hb hmem ht he hfirst =>
    have hrun : s'.running = s.running := by rw [running, ht, running]
    refine ⟨?_, ?_, ?_⟩
    · intro p hp
      rw [hrun] at hp
      obtain ⟨hf, hran, hdue⟩ := hc.first p hp
      have hg := hfirst (h.full (by simp [hp])) (by rw [hf]; exact ha p hp)
      exact ⟨hg.trans hf, by rw [he]; exact List.mem_append_left _ hran, hdue⟩
    · intro p hp
      rw [hmem, hrun]
      refine hc.ran p ?_
      simpa [he] using hp
    · rw [he]
      exact hc.honest.snoc nofun nofun
  | ret hn _ hmem ht he =>
    refine ⟨?_, ?_, by rw [he]; exact hc.honest⟩
    · intro p hp
      simp [running, ht] at hp
    · intro p hp
      rw [he] at hp
      exact .inl (by rw [hmem, hc.dead hn hp])
  | @run timer s' hn _ hle hal hcb hmem _ hrun he =>
    refine ⟨?_, ?_, ?_⟩
    · intro p hp
      rw [hrun] at hp
      cases hp
      exact ⟨rfl, by simp [he], hle, timer, h.within _ _ hal, hcb⟩
    · intro p hp
      rw [he, List.mem_append, List.mem_singleton] at hp
      rcases hp with hp | hp
      · exact .inl (by rw [hmem, hc.dead hn hp])
      · cases hp
        exact .inr hrun
    · rw [he]
      refine hc.honest.snoc nofun ?_
      rintro p ⟨⟩ hp
      rw [hc.dead hn (mem_fired.1 hp)] at hal
      cases hal
  | delete _ _ hnull hmem _ hn he =>
    refine ⟨?_, ?_, ?_⟩
    · intro p hp
      rw [hn] at hp
      cases hp
    · intro p hp
      have hp : .ran p ∈ s.events := by simpa [he] using hp
      rw [hmem]
      by_cases hpf : p = f 0
      · exact .inl (by rw [hpf, update_self])
      · rw [update_of_ne hpf]
        rcases hc.ran p hp with hd | hr
        · exact .inl hd
        · exact absurd (hc.first p hr).1.symm hpf
    · rw [he]
      refine hc.honest.snoc ?_ nofun
      rintro p ⟨⟩
      cases hr : s.running with
      | none => exact .inr (hnull hr)
      | some q =>
        obtain ⟨hf, hran, -⟩ := hc.first q hr
        exact .inl (by rw [hf]; exact hran)

/-- The callback of a timer adds one that expires before it. -/
theorem Calm.late (h : OneTick key mem₀ cur timers C f s) (hc : Calm key mem₀ cur f s)
    (h' : OneTick key mem₀ cur timers C' g s') (hm : Moves key mem₀ cur C f s a C' g s')
    (ha : ¬ s.Respects key a) : ∃ p, Late key mem₀ cur C' g p s' := by
  obtain ⟨x, p, rfl, hp, hlt⟩ := not_respects ha
  cases hm with
  | skip hskip =>
    rw [running_of_busy (hskip x rfl)] at hp
    cases hp
  | @add _ g s' hb hmem ht he hfirst =>
    have hrun : s'.running = s.running := by rw [running, ht, running]
    obtain ⟨hf, hran, hdue⟩ := hc.first p hp
    have hpC : p ∈ C := hf ▸ h.sorted.first_mem (h.full (by simp [hp]))
    have hx := (h'.sorted.first_le (Multiset.mem_cons_self x C)).2
    refine ⟨p, by simp [he, hran], Multiset.mem_cons_of_mem hpC, hdue, ?_, ?_⟩
    · intro hnil
      rw [ht] at hnil
      simp [running, hnil] at hp
    · intro q hq
      rw [hrun, hp] at hq
      cases hq
      exact .inr (hx.trans_lt hlt)

/-- A timer that is late stays late, until the `tick` has not been honest. -/
theorem Late.step (h : OneTick key mem₀ cur timers C f s) {p : TimerPtr}
    (hl : Late key mem₀ cur C f p s) (h' : OneTick key mem₀ cur timers C' g s')
    (hm : Moves key mem₀ cur C f s a C' g s') :
    ¬ Honest mem₀ s'.events ∨ Late key mem₀ cur C' g p s' := by
  obtain ⟨hran, hmemC, hdue, hticks, hbehind⟩ := hl
  obtain ⟨hpos, hfirst_le⟩ := h.sorted.first_le hmemC
  cases hm with
  | skip => exact .inr ⟨hran, hmemC, hdue, hticks, hbehind⟩
  | @add x g s' hb hmem ht he hfirst =>
    have hrun : s'.running = s.running := by rw [running, ht, running]
    have hx := (h'.sorted.first_le (Multiset.mem_cons_self x C)).2
    have hg := (h'.sorted.first_le (Multiset.mem_cons_of_mem (h.sorted.first_mem hpos))).2
    refine .inr ⟨by simp [he, hran], Multiset.mem_cons_of_mem hmemC, hdue, by rw [ht]; exact hticks,
      ?_⟩
    intro q hq
    rw [hrun] at hq
    rcases hbehind q hq with ⟨hf, hne⟩ | hlt
    · by_cases hle : key (f 0) ≤ key x
      · exact .inl ⟨(hfirst hpos hle).trans hf, hne⟩
      · exact .inr ((hx.trans_lt (not_le.1 hle)).trans_le hfirst_le)
    · exact .inr (hg.trans_lt hlt)
  | ret _ hlt => exact absurd hdue.le (not_le.2 (hlt p hmemC))
  | run _ _ _ _ _ _ ht hrun he =>
    by_cases hpf : f 0 = p
    · -- the callback of `p` is called again
      refine .inl fun hh => ?_
      have hnd := hh.once
      rw [he, fired_append, hpf] at hnd
      exact (List.nodup_append.1 hnd).2.2 p (mem_fired.2 hran) p (by simp [fired]) rfl
    · refine .inr ⟨by simp [he, hran], hmemC, hdue, ht, ?_⟩
      intro q hq
      rw [hrun] at hq
      cases hq
      exact .inl ⟨rfl, hpf⟩
  | delete _ _ hnull hmem ht hn he =>
    have hne : p ≠ f 0 := by
      rintro rfl
      cases hr : s.running with
      | none =>
        obtain ⟨timer, hcb⟩ := hdue.callback
        obtain ⟨timer', hcb'⟩ := hnull hr
        cases hcb.1.symm.trans hcb'.1
        exact hcb.2 hcb'.2
      | some q =>
        rcases hbehind q hr with ⟨hf, hne⟩ | hlt
        · exact hne hf.symm
        · exact absurd hlt (lt_irrefl _)
    refine .inr ⟨by simp [he, hran], (Multiset.mem_erase_of_ne hne).2 hmemC, hdue, ht, ?_⟩
    intro q hq
    rw [hn] at hq
    cases hq

/-! ## Whole runs -/

theorem OneTick.run_late (h : OneTick key mem₀ cur timers C f s) {as : List HeapAction}
    (ha : ∀ a ∈ as, a.Adds) (hr : s.run as = .ok s')
    (hl : ¬ Honest mem₀ s.events ∨ ∃ p, Late key mem₀ cur C f p s) (hs' : s'.ticks = []) :
    ¬ Honest mem₀ s'.events := by
  induction as generalizing s C f with
  | nil =>
    cases hr
    rcases hl with hn | ⟨p, hl⟩
    · exact hn
    · exact absurd hs' hl.ticks
  | cons a as ih =>
    rw [run_cons] at hr
    obtain ⟨s₁, hact, hr⟩ := Except.bind_eq_ok.1 hr
    obtain ⟨C₁, f₁, h₁, hm⟩ := h.step (ha a List.mem_cons_self) hact
    refine ih h₁ (fun a h => ha a (List.mem_cons_of_mem _ h)) hr ?_
    rcases hl with hn | ⟨p, hl⟩
    · exact .inl fun hh => hn (hm.honest hh)
    · exact (hl.step h h₁ hm).imp_right fun hl => ⟨p, hl⟩

/-- A run of a `tick`, from where nothing has gone wrong. -/
theorem OneTick.run (h : OneTick key mem₀ cur timers C f s) (hc : Calm key mem₀ cur f s)
    {as : List HeapAction} (ha : ∀ a ∈ as, a.Adds) (hr : s.run as = .ok s') :
    (s.Orderly key as → Honest mem₀ s'.events) ∧
      (s'.ticks = [] → Honest mem₀ s'.events → s.Orderly key as) := by
  induction as generalizing s C f with
  | nil =>
    cases hr
    exact ⟨fun _ => hc.honest, fun _ _ => trivial⟩
  | cons a as ih =>
    rw [run_cons] at hr
    obtain ⟨s₁, hact, hr⟩ := Except.bind_eq_ok.1 hr
    obtain ⟨C₁, f₁, h₁, hm⟩ := h.step (ha a List.mem_cons_self) hact
    have has : ∀ a ∈ as, a.Adds := fun a h => ha a (List.mem_cons_of_mem _ h)
    by_cases hresp : s.Respects key a
    · obtain ⟨hto, hfrom⟩ := ih h₁ (hc.step h hm hresp) has hr
      refine ⟨fun ho => hto (ho.2 s₁ hact), ?_⟩
      intro hs' hh
      refine ⟨hresp, ?_⟩
      intro s₂ hact'
      cases hact.symm.trans hact'
      exact hfrom hs' hh
    · refine ⟨fun ho => absurd ho.1 hresp, ?_⟩
      intro hs' hh
      exact absurd hh (h₁.run_late has hr (.inr (hc.late h h₁ hm hresp)) hs')

end

end HeapRun

end MyHttpServer
