/-
  The descriptor that `Loop` keeps in reserve.

  * `Conns`: where the connections are; every step moves at most one of them
    (`Step.moves`);
  * `Stage.step`: what the treatment of an `EMFILE` can count on from one of its
    calls to the next;
  * `reserve_iff`: when the reserve is there at every loop head.
-/
import MyHttpServer.Model.Loop

namespace MyHttpServer

namespace OpenFiles
variable {limit : ℕ} {t u : OpenFiles}

theorem close_some {fd : Option ℕ} {n : ℕ} {f : OpenFile} (h : t.close fd n = some f) :
    fd ≠ some n ∧ t n = some f := by
  cases fd with
  | none => exact ⟨nofun, h⟩
  | some m =>
    rw [close, Function.update_apply] at h
    split_ifs at h with hn
    exact ⟨fun he => hn (Option.some_inj.1 he).symm, h⟩

theorem free_close {fd : ℕ} (h : fd < limit) : (t.close (some fd)).Free limit fd :=
  ⟨h, Function.update_self ..⟩

theorem Free.not_full {fd : ℕ} (h : t.Free limit fd) : ¬ t.Full limit := fun hf => hf fd h.1 h.2

/-! ## Where the connections are -/

/-- No connection has a descriptor in `u` that it has not had in `t`. -/
def Fewer (t u : OpenFiles) : Prop := ∀ fd c, u fd = some (.conn c) → t fd = some (.conn c)

theorem fewer_refl (t : OpenFiles) : Fewer t t := fun _ _ h => h

theorem fewer_close (t : OpenFiles) (fd : Option ℕ) : Fewer t (t.close fd) :=
  fun _ _ h => (close_some h).2

theorem fewer_open (t : OpenFiles) (fd : ℕ) {f : OpenFile} (hf : ∀ c, f ≠ .conn c) :
    Fewer t (Function.update t fd (some f)) := by
  intro fd' c h
  rw [Function.update_apply] at h
  split_ifs at h
  · exact absurd (Option.some_inj.1 h) (hf c)
  · exact h

/-- The first `k` connections have come in, those of `queue` are pending, and each
    of the others has one descriptor at most. -/
structure Conns (t : OpenFiles) (queue : List ℕ) (k : ℕ) : Prop where
  lt : ∀ c ∈ queue, c < k
  nodup : queue.Nodup
  conn : ∀ fd c, t fd = some (.conn c) → c < k ∧ c ∉ queue
  inj : ∀ fd fd' c, t fd = some (.conn c) → t fd' = some (.conn c) → fd = fd'

/-- The connection has come in, and is neither pending nor open. -/
def Gone (t : OpenFiles) (queue : List ℕ) (k c : ℕ) : Prop :=
  c < k ∧ c ∉ queue ∧ ∀ fd, t fd ≠ some (.conn c)

/-- What a step can do to the connections. -/
inductive Moves : OpenFiles → List ℕ → ℕ → OpenFiles → List ℕ → ℕ → Prop
  | fewer {t u queue k} : Fewer t u → Moves t queue k u queue k
  | accept {t : OpenFiles} {fd c queue k} : t fd = none →
      Moves t (c :: queue) k (Function.update t fd (some (.conn c))) queue k
  | connect {t queue k} : Moves t queue k t (queue ++ [k]) (k + 1)

variable {queue queue' : List ℕ} {k k' c : ℕ}

theorem Conns.moves (h : Conns t queue k) (hm : Moves t queue k u queue' k') :
    Conns u queue' k' := by
  cases hm with
  | fewer hf =>
    exact ⟨h.lt, h.nodup, fun fd c hc => h.conn fd c (hf fd c hc),
      fun fd fd' c hc hc' => h.inj fd fd' c (hf fd c hc) (hf fd' c hc')⟩
  | @accept fd c queue k hfree =>
    have hnodup := List.nodup_cons.1 h.nodup
    have hold : ∀ fd' c', Function.update t fd (some (.conn c)) fd' = some (.conn c') →
        (fd' = fd ∧ c' = c) ∨ c' ≠ c ∧ t fd' = some (.conn c') := by
      intro fd' c' hc'
      rw [Function.update_apply] at hc'
      split_ifs at hc' with heq
      · cases hc'
        exact .inl ⟨heq, rfl⟩
      · refine .inr ⟨?_, hc'⟩
        rintro rfl
        exact (h.conn fd' c' hc').2 List.mem_cons_self
    refine ⟨fun c' hc' => h.lt c' (List.mem_cons_of_mem _ hc'), hnodup.2, ?_, ?_⟩
    · intro fd' c' hc'
      rcases hold fd' c' hc' with ⟨rfl, rfl⟩ | ⟨-, hc'⟩
      · exact ⟨h.lt c' List.mem_cons_self, hnodup.1⟩
      · obtain ⟨hlt, hmem⟩ := h.conn fd' c' hc'
        exact ⟨hlt, fun hq => hmem (List.mem_cons_of_mem _ hq)⟩
    · intro fd₁ fd₂ c' h₁ h₂
      rcases hold fd₁ c' h₁ with ⟨rfl, rfl⟩ | ⟨hne, h₁⟩
      · rcases hold fd₂ c' h₂ with ⟨rfl, -⟩ | ⟨hne, -⟩
        · rfl
        · exact absurd rfl hne
      · rcases hold fd₂ c' h₂ with ⟨-, heq⟩ | ⟨-, h₂⟩
        · exact absurd heq hne
        · exact h.inj fd₁ fd₂ c' h₁ h₂
  | connect =>
    refine ⟨?_, ?_, ?_, h.inj⟩
    · intro c hc
      rcases List.mem_append.1 hc with hc | hc
      · exact (h.lt c hc).trans (Nat.lt_succ_self k)
      · rw [List.mem_singleton.1 hc]
        exact Nat.lt_succ_self k
    · rw [List.nodup_append]
      refine ⟨h.nodup, List.nodup_singleton k, ?_⟩
      intro a ha b hb
      rw [List.mem_singleton.1 hb]
      exact (h.lt a ha).ne
    · intro fd c hc
      obtain ⟨hlt, hmem⟩ := h.conn fd c hc
      refine ⟨hlt.trans (Nat.lt_succ_self k), ?_⟩
      rw [List.mem_append, List.mem_singleton, not_or]
      exact ⟨hmem, hlt.ne⟩

theorem Gone.moves (h : Gone t queue k c) (hm : Moves t queue k u queue' k') :
    Gone u queue' k' c := by
  obtain ⟨hlt, hmem, hopen⟩ := h
  cases hm with
  | fewer hf => exact ⟨hlt, hmem, fun fd hc => hopen fd (hf fd c hc)⟩
  | @accept fd c' queue k hfree =>
    rw [List.mem_cons, not_or] at hmem
    refine ⟨hlt, hmem.2, ?_⟩
    intro fd' hc
    rw [Function.update_apply] at hc
    split_ifs at hc
    · cases hc
      exact hmem.1 rfl
    · exact hopen fd' hc
  | connect =>
    refine ⟨hlt.trans (Nat.lt_succ_self k), ?_, hopen⟩
    rw [List.mem_append, List.mem_singleton, not_or]
    exact ⟨hmem, hlt.ne⟩

/-- A connection that is closed is gone. -/
theorem Conns.gone_close (h : Conns t queue k) {fd : ℕ} (hc : t fd = some (.conn c)) :
    Gone (t.close (some fd)) queue k c := by
  obtain ⟨hlt, hmem⟩ := h.conn fd c hc
  refine ⟨hlt, hmem, ?_⟩
  intro fd' hc'
  obtain ⟨hne, hc'⟩ := close_some hc'
  exact hne (congrArg some (h.inj fd fd' c hc hc'))

end OpenFiles

namespace LoopState
variable {limit : ℕ} {files : Bytes → Bool} {s t : LoopState}

/-- **A step moves one connection at most.** -/
theorem Step.moves (h : Step limit files s t) :
    OpenFiles.Moves s.fds s.queue s.connected t.fds t.queue t.connected := by
  cases h with
  | accept4_sock _ hfree hq => rw [hq]; exact .accept hfree.2
  | accept _ hfree hq => rw [hq]; exact .accept hfree.2
  | accept4_EMFILE | accept4_error | accept_EMFILE | openNull_error =>
    exact .fewer (OpenFiles.fewer_refl _)
  | closeIdle | closeAccepted => exact .fewer (OpenFiles.fewer_close s.fds _)
  | other_close => exact .fewer (OpenFiles.fewer_close s.fds (some _))
  | openNull | other_open => exact .fewer (OpenFiles.fewer_open s.fds _ nofun)
  | connect => exact .connect

/-- No other thread opens a descriptor while an `EMFILE` is being treated. -/
def Undisturbed (s t : LoopState) : Prop :=
  s.pc.handling = true → t.pc = s.pc → ∀ fd, s.fds fd = none → t.fds fd = none

/-! ## The stages of the treatment -/

/-- The reserve is there. -/
def Reserved (s : LoopState) : Prop := ∃ fd, s.idlefd = some fd ∧ s.fds fd = some .null

/-- The `open` at the end of the treatment can succeed, or has not been called. -/
def Good (files : Bytes → Bool) (s : LoopState) : Prop :=
  files (str "dev/null") = true ∨ s.handled = []

/-- What holds where the loop is. -/
def Stage (limit : ℕ) (files : Bytes → Bool) (s : LoopState) : LoopPc → Prop
  | .accept4 => (s.Good files → s.Reserved) ∧ (¬ s.Good files → s.idlefd = none)
  | .closeIdle _ => s.Good files → s.Reserved
  | .accept _ => s.Good files → ∃ fd, s.fds.Free limit fd
  | .closeAccepted _ conn => (s.Good files → conn.isSome) ∧
      ∀ c, conn = some c → ∃ fd, s.idlefd = some fd ∧ s.fds fd = some (.conn c)
  | .openNull _ conn => (s.Good files → conn.isSome ∧ ∃ fd, s.fds.Free limit fd) ∧
      ∀ c, conn = some c → OpenFiles.Gone s.fds s.queue s.connected c
  | .exited => True

/-- What a step leaves as it is if it is not one of the treatment. -/
structure Beside (s t : LoopState) : Prop where
  pc : t.pc = s.pc
  idlefd : t.idlefd = s.idlefd
  handled : t.handled = s.handled
  holds : ∀ fd f, s.Holds f → s.fds fd = some f → t.fds fd = some f

theorem Beside.good (h : Beside s t) : t.Good files ↔ s.Good files := by
  rw [Good, Good, h.handled]

theorem Beside.reserved (h : Beside s t) (hr : s.Reserved) : t.Reserved := by
  obtain ⟨fd, hidle, hnull⟩ := hr
  exact ⟨fd, h.idlefd.trans hidle, h.holds fd _ (.inr (.inl rfl)) hnull⟩

theorem Beside.stage (h : Beside s t) (hu : Undisturbed s t)
    (hm : OpenFiles.Moves s.fds s.queue s.connected t.fds t.queue t.connected)
    (hs : s.Stage limit files s.pc) : t.Stage limit files t.pc := by
  have hfree : s.pc.handling = true → (∃ fd, s.fds.Free limit fd) → ∃ fd, t.fds.Free limit fd := by
    rintro hh ⟨fd, hlt, hnone⟩
    exact ⟨fd, hlt, hu hh h.pc fd hnone⟩
  rw [h.pc]
  cases hpc : s.pc with
  | accept4 =>
    rw [hpc] at hs
    exact ⟨fun hg => h.reserved (hs.1 (h.good.1 hg)),
      fun hg => h.idlefd.trans (hs.2 fun hg' => hg (h.good.2 hg'))⟩
  | closeIdle p =>
    rw [hpc] at hs
    exact fun hg => h.reserved (hs (h.good.1 hg))
  | accept p =>
    rw [hpc] at hs
    exact fun hg => hfree (by rw [hpc]; rfl) (hs (h.good.1 hg))
  | closeAccepted p conn =>
    rw [hpc] at hs
    refine ⟨fun hg => hs.1 (h.good.1 hg), ?_⟩
    rintro c rfl
    obtain ⟨fd, hidle, hconn⟩ := hs.2 c rfl
    exact ⟨fd, h.idlefd.trans hidle, h.holds fd _ (.inr (.inr ⟨p, c, hpc, rfl⟩)) hconn⟩
  | openNull p conn =>
    rw [hpc] at hs
    refine ⟨fun hg => ?_, fun c hc => (hs.2 c hc).moves hm⟩
    obtain ⟨hsome, hfd⟩ := hs.1 (h.good.1 hg)
    exact ⟨hsome, hfree (by rw [hpc]; rfl) hfd⟩
  | exited => trivial

theorem beside_update {fd : ℕ} {f : OpenFile} (hfree : s.fds fd = none) {q k o} :
    Beside s { s with
      fds := Function.update s.fds fd (some f), queue := q, connected := k, outcomes := o } where
  pc := rfl
  idlefd := rfl
  handled := rfl
  holds fd' f' _ hf := by
    show Function.update s.fds fd (some f) fd' = some f'
    rw [Function.update_of_ne, hf]
    rintro rfl
    rw [hfree] at hf
    cases hf

theorem beside_connect (s : LoopState) : Beside s { s with
    queue := s.queue ++ [s.connected], connected := s.connected + 1 } :=
  ⟨rfl, rfl, rfl, fun _ _ _ hf => hf⟩

theorem beside_close {fd : ℕ} {f : OpenFile} (hfd : s.fds fd = some f) (hf : ¬ s.Holds f) :
    Beside s { s with fds := s.fds.close (some fd) } where
  pc := rfl
  idlefd := rfl
  handled := rfl
  holds fd' f' hf' hfd' := by
    show Function.update s.fds fd none fd' = some f'
    rw [Function.update_of_ne, hfd']
    rintro rfl
    rw [hfd', Option.some_inj] at hfd
    exact hf (hfd ▸ hf')

/-- **The treatment of an `EMFILE`**, call by call. -/
theorem Stage.step (hs : s.Stage limit files s.pc) (hfits : ∀ fd, s.fds fd ≠ none → fd < limit)
    (hconns : OpenFiles.Conns s.fds s.queue s.connected) (hu : Undisturbed s t)
    (h : Step limit files s t) : t.Stage limit files t.pc := by
  have hm := h.moves
  have hclose : s.Reserved → ∃ fd, (s.fds.close s.idlefd).Free limit fd := by
    rintro ⟨fd, hidle, hnull⟩
    rw [hidle]
    exact ⟨fd, OpenFiles.free_close (hfits fd (by simp [hnull]))⟩
  cases h with
  | accept4_sock hpc hfree hq => exact (beside_update hfree.2).stage hu hm hs
  | connect => exact (beside_connect s).stage hu hm hs
  | other_open hfree => exact (beside_update hfree.2).stage hu hm hs
  | other_close hfd hholds => exact (beside_close hfd hholds).stage hu hm hs
  | accept4_EMFILE hpc _ =>
    rw [hpc] at hs
    exact hs.1
  | accept4_error => trivial
  | closeIdle hpc =>
    rw [hpc] at hs
    exact fun hg => hclose (hs hg)
  | accept hpc hfree hq =>
    refine ⟨fun _ => rfl, ?_⟩
    rintro c ⟨⟩
    exact ⟨_, rfl, Function.update_self ..⟩
  | accept_EMFILE hpc hfull =>
    rw [hpc] at hs
    refine ⟨fun hg => ?_, nofun⟩
    obtain ⟨fd, hfree⟩ := hs hg
    exact absurd hfull hfree.not_full
  | @closeAccepted p conn hpc =>
    rw [hpc] at hs
    refine ⟨fun hg => ⟨hs.1 hg, ?_⟩, ?_⟩
    · obtain ⟨c, rfl⟩ := Option.isSome_iff_exists.1 (hs.1 hg)
      obtain ⟨fd, hidle, hconn⟩ := hs.2 c rfl
      show ∃ fd, (s.fds.close s.idlefd).Free limit fd
      rw [hidle]
      exact ⟨fd, OpenFiles.free_close (hfits fd (by simp [hconn]))⟩
    · rintro c rfl
      obtain ⟨fd, hidle, hconn⟩ := hs.2 c rfl
      show OpenFiles.Gone (s.fds.close s.idlefd) _ _ _
      rw [hidle]
      exact hconns.gone_close hconn
  | openNull hpc hfile hfree =>
    exact ⟨fun _ => ⟨_, rfl, Function.update_self ..⟩, fun hg => absurd (.inl hfile) hg⟩
  | openNull_error hpc herr =>
    rw [hpc] at hs
    refine ⟨fun hg => ?_, fun _ => rfl⟩
    -- the file is there, and so is a descriptor
    have hfile : files (str "dev/null") = true := by
      rcases hg with hfile | hnil
      · exact hfile
      · exact absurd hnil (by simp)
    obtain ⟨fd, hfree⟩ := (hs.1 (.inl hfile)).2
    rcases herr with herr | hfull
    · rw [hfile] at herr
      cases herr
    · exact absurd hfull hfree.not_full

/-! ## Runs -/

/-- What is recorded, and of what. -/
theorem Step.handled (h : Step limit files s t) :
    t.handled = s.handled ∨
      ∃ p conn, s.pc = .openNull p conn ∧ t.handled = s.handled ++ [⟨p, conn⟩] := by
  cases h with
  | openNull hpc | openNull_error hpc => exact .inr ⟨_, _, hpc, rfl⟩
  | _ => exact .inl rfl

theorem Step.fits (h : Step limit files s t) (hs : ∀ fd, s.fds fd ≠ none → fd < limit) :
    ∀ fd, t.fds fd ≠ none → fd < limit := by
  have hopen : ∀ {fd f}, s.fds.Free limit fd →
      ∀ fd', Function.update s.fds fd (some f) fd' ≠ none → fd' < limit := by
    intro fd f hfree fd' hne
    by_cases heq : fd' = fd
    · exact heq ▸ hfree.1
    · rw [Function.update_of_ne heq] at hne
      exact hs fd' hne
  have hclose : ∀ fd fd', s.fds.close fd fd' ≠ none → fd' < limit := by
    intro fd fd' hne
    obtain ⟨f, hf⟩ := Option.ne_none_iff_exists'.1 hne
    exact hs fd' (by simp [(OpenFiles.close_some hf).2])
  cases h with
  | accept4_sock _ hfree | accept _ hfree | openNull _ _ hfree | other_open hfree =>
    exact hopen hfree
  | closeIdle | closeAccepted => exact hclose s.idlefd
  | other_close => exact hclose (some _)
  | accept4_EMFILE | accept4_error | accept_EMFILE | openNull_error | connect => exact hs

/-- An `EMFILE` has been treated, or is being treated. -/
theorem Step.outcomes (h : Step limit files s t)
    (hs : .EMFILE ∈ s.outcomes ↔ s.handled ≠ [] ∨ s.pc.handling = true) :
    .EMFILE ∈ t.outcomes ↔ t.handled ≠ [] ∨ t.pc.handling = true := by
  cases h with
  | accept4_sock hpc | accept4_error hpc =>
    rw [hpc] at hs
    simpa [LoopPc.handling, hpc] using hs
  | accept4_EMFILE => simp [LoopPc.handling]
  | closeIdle hpc | accept hpc | accept_EMFILE hpc | closeAccepted hpc =>
    rw [hpc] at hs
    exact iff_of_true (hs.2 (.inr rfl)) (.inr rfl)
  | openNull hpc | openNull_error hpc =>
    rw [hpc] at hs
    exact iff_of_true (hs.2 (.inr rfl)) (.inl (by simp))
  | connect | other_open | other_close => exact hs

/-- The invariant of the loop. -/
structure Inv (limit : ℕ) (files : Bytes → Bool) (s : LoopState) : Prop where
  fits : ∀ fd, s.fds fd ≠ none → fd < limit
  conns : OpenFiles.Conns s.fds s.queue s.connected
  stage : s.Stage limit files s.pc
  gone : ∀ i ∈ s.handled, ∀ c, i.conn = some c → OpenFiles.Gone s.fds s.queue s.connected c
  conn : files (str "dev/null") = true → ∀ i ∈ s.handled, i.conn.isSome
  first : ∀ i, s.handled.head? = some i → i.conn.isSome
  outcomes : .EMFILE ∈ s.outcomes ↔ s.handled ≠ [] ∨ s.pc.handling = true

/-- The connection of an `EMFILE` whose treatment comes to its end. -/
theorem Inv.openNull {p : Bool} {conn : Option ℕ} (h : Inv limit files s)
    (hpc : s.pc = .openNull p conn) :
    (s.Good files → conn.isSome) ∧
      ∀ c, conn = some c → OpenFiles.Gone s.fds s.queue s.connected c := by
  have hstage := h.stage
  rw [hpc] at hstage
  exact ⟨fun hg => (hstage.1 hg).1, hstage.2⟩

/-- The connection of an `EMFILE` that has been treated. -/
theorem Inv.taken (h : Inv limit files s) {i : Treatment} (hi : i ∈ s.handled)
    (hsome : i.conn.isSome) :
    ∃ c, i.conn = some c ∧ c ∉ s.queue ∧ ∀ fd, s.fds fd ≠ some (.conn c) := by
  obtain ⟨c, hc⟩ := Option.isSome_iff_exists.1 hsome
  obtain ⟨-, hqueue, hopen⟩ := h.gone i hi c hc
  exact ⟨c, hc, hqueue, hopen⟩

theorem Inv.step (h : Inv limit files s) (hst : Step limit files s t) (hu : Undisturbed s t) :
    Inv limit files t := by
  have hgone : ∀ i ∈ s.handled, ∀ c, i.conn = some c →
      OpenFiles.Gone t.fds t.queue t.connected c :=
    fun i hi c hc => (h.gone i hi c hc).moves hst.moves
  refine ⟨hst.fits h.fits, h.conns.moves hst.moves, h.stage.step h.fits h.conns hu hst, ?_, ?_, ?_,
    hst.outcomes h.outcomes⟩
  all_goals
    rcases hst.handled with heq | ⟨p, conn, hpc, heq⟩
    all_goals rw [heq]
  · exact hgone
  · intro i hi
    rcases List.mem_append.1 hi with hi | hi
    · exact hgone i hi
    · cases List.mem_singleton.1 hi
      exact fun c hc => ((h.openNull hpc).2 c hc).moves hst.moves
  · exact h.conn
  · intro hfile i hi
    rcases List.mem_append.1 hi with hi | hi
    · exact h.conn hfile i hi
    · cases List.mem_singleton.1 hi
      exact (h.openNull hpc).1 (.inl hfile)
  · exact h.first
  · intro i hi
    cases hhandled : s.handled with
    | nil =>
      rw [hhandled] at hi
      cases hi
      exact (h.openNull hpc).1 (.inr hhandled)
    | cons j js =>
      rw [hhandled] at hi
      cases hi
      exact h.first _ (by rw [hhandled]; rfl)

theorem Inv.of_reachable (h : ((loop limit files).only Undisturbed).Reachable s) :
    Inv limit files s := by
  refine System.Reachable.induct ?_ ?_ h
  · rintro s ⟨hreserved, hpc, hfits, hnone, hqueue, -, houtcomes, hhandled⟩
    refine ⟨hfits, ⟨by simp [hqueue], by simp [hqueue], ?_, ?_⟩, ?_, by simp [hhandled],
      by simp [hhandled], by simp [hhandled], by simp [houtcomes, hhandled, hpc, LoopPc.handling]⟩
    · intro fd c hc
      exact absurd hc (hnone fd c)
    · intro fd fd' c hc
      exact absurd hc (hnone fd c)
    · rw [hpc]
      exact ⟨fun _ => hreserved, fun hg => absurd (.inr hhandled) hg⟩
  · rintro s t hs ⟨hst, hu⟩
    exact hs.step hst hu

/-- What is asked for: at a loop head, the reserve is an open descriptor, and each
    `EMFILE` with a connection pending has taken one out of the queue and closed
    it. -/
def Upholds (s : LoopState) : Prop :=
  (s.pc = .accept4 → ∃ fd, s.idlefd = some fd ∧ s.fds fd ≠ none) ∧
    ∀ i ∈ s.handled, i.pending = true →
      ∃ c, i.conn = some c ∧ c ∉ s.queue ∧ ∀ fd, s.fds fd ≠ some (.conn c)

/-- The first `EMFILE` is treated as it should be, whatever the last `open` does. -/
theorem first_handled (h : ((loop limit files).only Undisturbed).Reachable s) {i : Treatment}
    (hi : s.handled.head? = some i) :
    ∃ c, i.conn = some c ∧ c ∉ s.queue ∧ ∀ fd, s.fds fd ≠ some (.conn c) := by
  have hinv := Inv.of_reachable h
  exact hinv.taken (List.mem_of_head? hi) (hinv.first i hi)

/-- **The reserve descriptor**: all is as it should be up to a loop head, if and
    only if no `accept4` has failed with `EMFILE` so far, or `dev/null` is a file. -/
theorem reserve_iff (h : ((loop limit files).only Undisturbed).Reachable s)
    (hpc : s.pc = .accept4) :
    s.Upholds ↔ files (str "dev/null") = true ∨ .EMFILE ∉ s.outcomes := by
  have hinv := Inv.of_reachable h
  have hstage := hinv.stage
  have houtcomes := hinv.outcomes
  rw [hpc] at hstage houtcomes
  have hgood : s.Good files ↔ files (str "dev/null") = true ∨ .EMFILE ∉ s.outcomes := by
    rw [Good, houtcomes]
    simp [LoopPc.handling]
  rw [← hgood]
  constructor
  · rintro ⟨hhead, -⟩
    by_contra hg
    obtain ⟨fd, hidle, -⟩ := hhead hpc
    rw [hstage.2 hg] at hidle
    cases hidle
  · intro hg
    obtain ⟨fd, hidle, hnull⟩ := hstage.1 hg
    refine ⟨fun _ => ⟨fd, hidle, by simp [hnull]⟩, ?_⟩
    intro i hi _
    rcases hg with hfile | hnil
    · exact hinv.taken hi (hinv.conn hfile i hi)
    · rw [hnil] at hi
      cases hi

/-- A table of two, with the reserve at 1. -/
def twoFds : LoopState where
  fds fd := [OpenFile.listen, .null][fd]?
  queue := []
  connected := 0
  idlefd := some 1
  pc := .accept4
  outcomes := []
  handled := []

theorem start_twoFds : twoFds.Start 2 := by
  refine ⟨⟨1, rfl, rfl⟩, rfl, ?_, ?_, rfl, rfl, rfl, rfl⟩
  · intro fd hfd
    by_contra hlt
    exact hfd (List.getElem?_eq_none (Nat.not_lt.1 hlt))
  · intro fd c hc
    have hmem := List.mem_of_getElem? hc
    simp at hmem

/-- The only file is `/dev/null`. -/
def devNull (path : Bytes) : Bool := path = str "/dev/null"

/-- One connection has been closed for want of a descriptor. -/
def oneClosed : LoopState where
  fds := OpenFiles.close (Function.update (twoFds.fds.close (some 1)) 1 (some (.conn 0))) (some 1)
  queue := []
  connected := 1
  idlefd := none
  pc := .accept4
  outcomes := [.EMFILE]
  handled := [⟨true, some 0⟩]

theorem reachable_oneClosed : ((loop 2 devNull).only Undisturbed).Reachable oneClosed := by
  have h0 : ((loop 2 devNull).only Undisturbed).Reachable twoFds := .init start_twoFds
  have h1 := h0.step ⟨.connect, nofun⟩
  have h2 := h1.step ⟨.accept4_EMFILE rfl (by decide), nofun⟩
  have h3 := h2.step ⟨.closeIdle rfl, nofun⟩
  have h4 := h3.step ⟨@Step.accept _ _ _ _ 1 0 [] rfl (by decide) rfl, nofun⟩
  have h5 := h4.step ⟨.closeAccepted rfl, nofun⟩
  have h6 := h5.step ⟨.openNull_error rfl (.inl (by decide)), nofun⟩
  exact h6

theorem reserve_iff_oneClosed :
    oneClosed.Upholds ↔ devNull (str "dev/null") = true ∨ .EMFILE ∉ oneClosed.outcomes :=
  reserve_iff reachable_oneClosed rfl

/-- Two more connections: the first gets the descriptor of the reserve, and the
    other one stays in the queue. -/
theorem reserve_lost :
    ∃ s : LoopState, ((loop 2 devNull).only Undisturbed).Reachable s ∧ s.pc = .accept4 ∧
      s.idlefd = none ∧ s.queue = [2] ∧ s.handled = [⟨true, some 0⟩, ⟨true, none⟩] ∧
      ¬ s.Upholds := by
  have h0 := reachable_oneClosed
  have h1 := h0.step ⟨.connect, nofun⟩
  have h2 := h1.step ⟨.connect, nofun⟩
  have h3 := h2.step ⟨@Step.accept4_sock _ _ _ 1 1 [2] rfl (by decide) rfl, nofun⟩
  have h4 := h3.step ⟨.accept4_EMFILE rfl (by decide), nofun⟩
  have h5 := h4.step ⟨.closeIdle rfl, nofun⟩
  have h6 := h5.step ⟨.accept_EMFILE rfl (by decide), nofun⟩
  have h7 := h6.step ⟨.closeAccepted rfl, nofun⟩
  have h8 := h7.step ⟨.openNull_error rfl (.inl (by decide)), nofun⟩
  refine ⟨_, h8, rfl, rfl, rfl, rfl, ?_⟩
  rintro ⟨hhead, -⟩
  obtain ⟨fd, hidle, -⟩ := hhead rfl
  cases hidle

end LoopState

end MyHttpServer
