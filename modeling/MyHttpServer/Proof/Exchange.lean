/-
  The exchange between `CgiProcess` and its child comes to an end, or stops
  where both write.

  The parent reads nothing before it has written the whole body.  A child that
  writes more than its pipe holds while there is more left of the body than the
  other pipe holds is never read from, and the parent never gets rid of the
  rest.

  * `Inv.step`: what the two have exchanged, in every reachable state;
  * `exists_stuck_exchange`: every run comes to an end;
  * `deadlock_free_iff`: when no run ends before both have finished.
-/
import MyHttpServer.Model.Exchange

namespace MyHttpServer

open Interactive

namespace CgiJob
variable {α : Type} {j : CgiJob α} {s t : Exchange α}

/-! ## The invariant -/

/-- What has been exchanged: the child has read a first part of the body, of
    which the pipe holds the next bytes, and what it has written is in its pipe
    or behind `m_response_body`. -/
structure Inv (j : CgiJob α) (s : Exchange α) : Prop where
  goes : j.child.Goes j.inputSize s.taken s.given s.child
  input_le : s.input.length ≤ j.inputSize
  output_le : s.output.length ≤ j.outputSize
  sent : s.taken ++ s.input <+: j.body
  received : s.responseBody ++ s.output = j.responseBody ++ s.given
  writing : ∀ sum, s.parent = .writing sum →
    sum = (s.taken ++ s.input).length ∧ s.responseBody = j.responseBody
  written : (∀ sum, s.parent ≠ .writing sum) → s.child.Exited ∨ s.taken ++ s.input = j.body
  ended : s.parent = .waiting ∨ s.parent = .done → s.output = [] ∧ s.child.Exited

theorem inv_start (j : CgiJob α) : Inv j j.start where
  goes := .start
  input_le := Nat.zero_le _
  output_le := Nat.zero_le _
  sent := List.nil_prefix
  received := by simp [start]
  writing sum h := by cases h; exact ⟨rfl, rfl⟩
  written h := absurd rfl (h 0)
  ended h := by rcases h with h | h <;> cases h

/-- **The invariant is kept** by every step of the two. -/
theorem Inv.step (h : Inv j s) (hs : j.Step s t) : Inv j t := by
  obtain ⟨hgoes, hin, hout, hsent, hrec, hwriting, hwritten, hover⟩ := h
  cases hs with
  | @write sum k hp hne hk hle hroom =>
    obtain ⟨hsum, hresp⟩ := hwriting sum hp
    obtain ⟨rest, hrest⟩ := hsent
    have hdrop : j.body.drop sum = rest := by rw [← hrest, hsum, List.drop_left]
    refine ⟨hgoes, ?_, hout, ?_, hrec, ?_, ?_, ?_⟩
    · simp only [List.length_append, List.length_take]
      omega
    · show s.taken ++ (s.input ++ (j.body.drop sum).take k) <+: j.body
      rw [hdrop, ← hrest, ← List.append_assoc]
      exact (List.prefix_append_right_inj _).2 (List.take_prefix k rest)
    · rintro sum' ⟨⟩
      refine ⟨?_, hresp⟩
      rw [List.length_append] at hsum
      simp only [List.length_append, List.length_take, List.length_drop]
      omega
    · intro hno
      exact absurd rfl (hno _)
    · rintro (h | h) <;> cases h
  | @write_zero sum hp hz =>
    obtain ⟨hsum, hresp⟩ := hwriting sum hp
    refine ⟨hgoes, hin, hout, hsent, hrec, ?_, fun _ => .inr ?_, ?_⟩
    · rintro sum' ⟨⟩
    · exact hsent.eq_of_length (by have := hsent.length_le; omega)
    · rintro (h | h) <;> cases h
  | @write_error sum hp he =>
    refine ⟨hgoes, hin, hout, hsent, hrec, ?_, fun _ => .inl he, ?_⟩
    · rintro sum' ⟨⟩
    · rintro (h | h) <;> cases h
  | @read ch output hp ho =>
    refine ⟨hgoes, hin, ?_, hsent, ?_, ?_, ?_, ?_⟩
    · rw [ho, List.length_cons] at hout
      exact Nat.le_of_succ_le hout
    · rw [← hrec, ho]
      simp
    · rintro sum h
      rw [show s.parent = _ from h] at hp
      cases hp
    · exact hwritten
    · rintro (h | h) <;> rw [show s.parent = _ from h] at hp <;> cases hp
  | read_end hp ho he =>
    refine ⟨hgoes, hin, hout, hsent, hrec, ?_, fun _ => .inl he, fun _ => ⟨ho, he⟩⟩
    rintro sum ⟨⟩
  | waitpid hp he =>
    refine ⟨hgoes, hin, hout, hsent, hrec, ?_, fun _ => .inl he, fun _ => ⟨(hover (.inl hp)).1, he⟩⟩
    rintro sum ⟨⟩
  | @child_read n next hc hne =>
    have hcut : s.taken ++ s.input.take (n + 1) ++ s.input.drop (n + 1) = s.taken ++ s.input := by
      rw [List.append_assoc, List.take_append_drop]
    have hbusy : ¬ s.child.Exited := by
      rw [hc]
      exact not_exited_read n next
    rw [hc] at hgoes
    refine ⟨hgoes.read ?_ (List.length_take_le _ _) ?_, ?_, hout, ?_, hrec, ?_, ?_, ?_⟩
    · rw [← List.length_pos_iff] at hne ⊢
      rw [List.length_take]
      omega
    · rw [List.length_take]
      omega
    · rw [List.length_drop]
      omega
    · rwa [hcut]
    · intro sum hp
      rw [hcut]
      exact hwriting sum hp
    · intro hno
      rw [hcut]
      exact .inr ((hwritten hno).resolve_left hbusy)
    · intro ho
      exact absurd (hover ho).2 hbusy
  | @child_write b bs next hc hroom =>
    have hbusy : ¬ s.child.Exited := by
      rw [hc]
      exact not_exited_write (b :: bs) next
    rw [hc] at hgoes
    refine ⟨hgoes.write, hin, ?_, hsent, ?_, hwriting, ?_, ?_⟩
    · rw [List.length_append, List.length_singleton]
      exact hroom
    · rw [← List.append_assoc, hrec, List.append_assoc]
    · intro hno
      exact .inr ((hwritten hno).resolve_left hbusy)
    · intro ho
      exact absurd (hover ho).2 hbusy
  | @child_written next hc =>
    have hbusy : ¬ s.child.Exited := by
      rw [hc]
      exact not_exited_write [] next
    rw [hc] at hgoes
    refine ⟨hgoes.written, hin, hout, hsent, hrec, hwriting, ?_, ?_⟩
    · intro hno
      exact .inr ((hwritten hno).resolve_left hbusy)
    · intro ho
      exact absurd (hover ho).2 hbusy

theorem reachable_inv (h : j.system.Reachable s) : Inv j s := by
  refine h.induct (I := Inv j) ?_ fun s t hi hs => hi.step hs
  rintro _ rfl
  exact inv_start j

/-! ## Every run comes to an end -/

/-- What the parent has yet to do, if the child does nothing. -/
def parentLeft (j : CgiJob α) (s : Exchange α) : ℕ :=
  match s.parent with
  | .writing sum => (j.body.length - sum) + s.output.length + 3
  | .reading => s.output.length + 2
  | .waiting => 1
  | .done => 0

/-- **A run goes on until no step is possible**: the child comes closer to its
    end, or the parent does while the child rests. -/
theorem exists_stuck_exchange (h : j.system.Reachable s) :
    ∃ t, j.system.Reachable t ∧ j.system.Stuck t := by
  refine System.exists_stuck (wf.prod_lex Nat.lt_wfRel.wf)
    (fun s => (s.child, j.parentLeft s)) ?_ h
  intro s t hs
  cases hs with
  | write hp _ hk hle =>
    refine .right _ ?_
    simp only [parentLeft, hp]
    show _ < _
    omega
  | write_zero hp | write_error hp =>
    refine .right _ ?_
    simp only [parentLeft, hp]
    show _ < _
    omega
  | read hp ho =>
    refine .right _ ?_
    simp only [parentLeft, hp, ho, List.length_cons]
    show _ < _
    omega
  | read_end hp | waitpid hp =>
    refine .right _ ?_
    simp only [parentLeft, hp]
    show _ < _
    omega
  | child_read hc =>
    simp only [hc]
    exact .left _ _ (.read _ _ _)
  | child_write hc =>
    simp only [hc]
    exact .left _ _ (.write _ _ _)
  | child_written hc =>
    simp only [hc]
    exact .left _ _ (.written _)

/-! ## Deadlock -/

/-- The child keeps up with the parent: before it writes more than the pipe
    `output` holds, it has read so much that the pipe `input` holds the rest. -/
def KeepsUp (j : CgiJob α) : Prop :=
  ∀ inp out b bs next, j.child.Goes j.inputSize inp out (.write (b :: bs) next) →
    inp <+: j.body → out.length = j.outputSize → j.body.length ≤ inp.length + j.inputSize

/-- The parent can go on writing if there is room in its pipe. -/
theorem exists_write {sum : ℕ} (hp : s.parent = .writing sum) (hne : ¬ s.child.Exited)
    (hroom : s.input.length < j.inputSize) : ∃ t, j.Step s t := by
  by_cases hz : j.body.length - sum = 0
  · exact ⟨_, .write_zero hp hz⟩
  · exact ⟨_, .write hp hne Nat.one_pos (by omega) hroom⟩

/-- **A state in which one of the two has not finished has a step**, if the child
    keeps up and reads no more than the body. -/
theorem Inv.exists_step (h : Inv j s) (hw : j.child.Within j.body.length) (hk : j.KeepsUp)
    (hf : ¬ s.Finished) : ∃ t, j.Step s t := by
  cases hc : s.child with
  | exit a =>
    have he : s.child.Exited := by
      rw [hc]
      exact exited_exit a
    cases hp : s.parent with
    | writing sum => exact ⟨_, .write_error hp he⟩
    | reading =>
      cases ho : s.output with
      | nil => exact ⟨_, .read_end hp ho he⟩
      | cons ch output => exact ⟨_, .read hp ho⟩
    | waiting => exact ⟨_, .waitpid hp he⟩
    | done => exact absurd ⟨hp, he⟩ hf
  | read n next =>
    have hne : ¬ s.child.Exited := by
      rw [hc]
      exact not_exited_read n next
    by_cases hin : s.input = []
    swap
    · exact ⟨_, .child_read hc hin⟩
    cases hp : s.parent with
    | writing sum => exact exists_write hp hne (by rw [hin]; exact j.input_pos)
    | reading =>
      cases ho : s.output with
      | cons ch output => exact ⟨_, .read hp ho⟩
      | nil =>
        -- the child has read the whole body, and does not ask for more
        have hall : s.taken ++ s.input = j.body :=
          (h.written fun sum hs => by rw [hp] at hs; cases hs).resolve_left hne
        rw [hin, List.append_nil] at hall
        have hwithin := h.goes.within hw (by rw [hall])
        rw [hc, hall, Nat.sub_self] at hwithin
        exact absurd hwithin.1 (lt_irrefl 0)
    | waiting => exact absurd (h.ended (.inl hp)).2 hne
    | done => exact absurd (h.ended (.inr hp)).2 hne
  | write bs next =>
    have hne : ¬ s.child.Exited := by
      rw [hc]
      exact not_exited_write bs next
    cases bs with
    | nil => exact ⟨_, .child_written hc⟩
    | cons b bs =>
      by_cases hout : s.output.length < j.outputSize
      · exact ⟨_, .child_write hc hout⟩
      cases hp : s.parent with
      | writing sum =>
        by_cases hin : s.input.length < j.inputSize
        · exact exists_write hp hne hin
        -- both pipes are full: the parent has only the rest of the body left in its own
        obtain ⟨hsum, hresp⟩ := h.writing sum hp
        have hgiven : s.output = s.given := by
          have := h.received
          rwa [hresp, List.append_cancel_left_eq] at this
        have hgoes := h.goes
        rw [hc] at hgoes
        have hlag := hk _ _ _ _ _ hgoes ((List.prefix_append _ _).trans h.sent)
          (by rw [← hgiven]; exact le_antisymm h.output_le (not_lt.1 hout))
        rw [List.length_append] at hsum
        exact ⟨_, .write_zero hp (by omega)⟩
      | reading =>
        cases ho : s.output with
        | nil =>
          rw [ho] at hout
          exact absurd j.output_pos hout
        | cons ch output => exact ⟨_, .read hp ho⟩
      | waiting => exact absurd (h.ended (.inl hp)).2 hne
      | done => exact absurd (h.ended (.inr hp)).2 hne

/-- The state in which the child has gone on as far as the parent's bytes reach,
    and the parent has written no more than these. -/
def along (j : CgiJob α) (inp out : Bytes) (child : Interactive UInt8 α) : Exchange α :=
  { j.start with parent := .writing inp.length, child, output := out, taken := inp, given := out }

/-- Every path of the child that stays within its pipe can be gone so. -/
theorem reachable_along {inp out : Bytes} {d : Interactive UInt8 α}
    (h : j.child.Goes j.inputSize inp out d) (hp : inp <+: j.body)
    (ho : out.length ≤ j.outputSize) : j.system.Reachable (j.along inp out d) := by
  induction h with
  | start => exact .init rfl
  | @read inp out n next as h hne hle hcap ih =>
    obtain ⟨rest, hrest⟩ := hp
    have hbefore := ih ((List.prefix_append _ _).trans ⟨rest, hrest⟩) ho
    have hdrop : (j.body.drop inp.length).take as.length = as := by
      rw [← hrest, List.append_assoc, List.drop_left, List.take_left]
    have hlen := congrArg List.length hrest
    simp only [List.length_append] at hlen
    -- the parent writes what the child is going to read
    have hwrite := hbefore.step (Step.write (k := as.length) rfl id (List.length_pos_iff.2 hne)
      (by omega) (by simpa [along, start] using hcap))
    have hread := hwrite.step (@Step.child_read _ _ _ n next rfl
      (by simpa [along, start, hdrop] using hne))
    convert hread using 1
    simp [along, start, hdrop, List.take_of_length_le hle, List.drop_of_length_le hle]
  | @write inp out b bs next h ih =>
    rw [List.length_append, List.length_singleton] at ho
    exact (ih hp (by omega)).step (Step.child_write rfl (by simpa [along] using ho))
  | written h ih => exact (ih hp ho).step (Step.child_written rfl)

/-- Both write, and both pipes are full. -/
theorem stuck_of_full {sum : ℕ} {b : UInt8} {bs : Bytes} {next : Interactive UInt8 α}
    (hp : s.parent = .writing sum) (hsum : sum < j.body.length)
    (hin : s.input.length = j.inputSize) (hc : s.child = .write (b :: bs) next)
    (hout : s.output.length = j.outputSize) : j.system.Stuck s := by
  intro t hs
  cases hs with
  | @write sum' k hp' _ hk _ hroom => omega
  | write_zero hp' hz =>
    rw [hp] at hp'
    cases hp'
    omega
  | write_error _ he =>
    rw [hc] at he
    cases he
  | read hp' | read_end hp' | waitpid hp' =>
    rw [hp] at hp'
    cases hp'
  | child_read hc' | child_written hc' =>
    rw [hc] at hc'
    cases hc'
  | child_write _ hroom => omega

/-- A child that does not keep up can be left with both pipes full. -/
theorem exists_deadlock (h : ¬ j.KeepsUp) :
    ∃ s, j.system.Reachable s ∧ ¬ s.Finished ∧ j.system.Stuck s := by
  simp only [KeepsUp, not_forall, not_le] at h
  obtain ⟨inp, out, b, bs, next, hgoes, hpre, hout, hlt⟩ := h
  have hfull : ((j.body.drop inp.length).take j.inputSize).length = j.inputSize := by
    rw [List.length_take, List.length_drop]
    omega
  have hreach := (reachable_along hgoes hpre hout.le).step
    (Step.write (k := j.inputSize) rfl id j.input_pos (by omega) (by simp [along, start]))
  refine ⟨_, hreach, ?_, ?_⟩
  · rintro ⟨hdone, -⟩
    cases hdone
  · exact stuck_of_full rfl (by omega) (by simpa [along, start] using hfull) rfl hout

/-- **No run ends before both have finished exactly if the child keeps up with
    the parent.** -/
theorem deadlock_free_iff (hw : j.child.Within j.body.length) :
    (∀ s, j.system.Reachable s → ¬ s.Finished → ∃ t, j.system.step s t) ↔ j.KeepsUp := by
  constructor
  · intro h
    by_contra hk
    obtain ⟨s, hr, hf, hstuck⟩ := exists_deadlock hk
    obtain ⟨t, ht⟩ := h s hr hf
    exact hstuck t ht
  · intro hk s hr hf
    exact (reachable_inv hr).exists_step hw hk hf

/-- A child that reads the whole body first keeps up. -/
theorem keepsUp_readN {k : Bytes → Interactive UInt8 α}
    (hc : j.child = .readN k j.body.length []) : j.KeepsUp := by
  intro inp given b bs next hg _ hout
  rw [hc] at hg
  rcases hg.of_readN with ⟨m, hm, -, -, hd⟩ | ⟨i, rest, rfl, hi, -⟩
  · obtain ⟨m, rfl⟩ := Nat.exists_eq_succ_of_ne_zero hm.ne'
    cases hd
  · rw [List.length_append]
    omega

/-- Reads `ab`, then writes `xy`. -/
def reader : CgiJob Unit where
  body := str "ab"
  responseBody := []
  child := .readN (fun _ => .write (str "xy") (.exit ())) (str "ab").length []
  inputSize := 1
  outputSize := 1
  input_pos := Nat.one_pos
  output_pos := Nat.one_pos

theorem deadlock_free_iff_reader : reader.KeepsUp ∧
    ∀ s, reader.system.Reachable s → ¬ s.Finished → ∃ t, reader.system.step s t := by
  have hk : reader.KeepsUp := keepsUp_readN rfl
  have hw : reader.child.Within reader.body.length :=
    within_readN (fun _ => within_exit () 0) (str "ab").length []
  exact ⟨hk, (deadlock_free_iff hw).2 hk⟩

/-- Writes `xy`, then reads `ab`. -/
def writer : CgiJob Unit where
  body := str "ab"
  responseBody := []
  child := .write (str "xy") (.read 1 fun _ => .exit ())
  inputSize := 1
  outputSize := 1
  input_pos := Nat.one_pos
  output_pos := Nat.one_pos

/-- The one waits for room for `y`, the other for room for `b`. -/
theorem writer_deadlock : writer.child.Within writer.body.length ∧
    ∃ s, writer.system.Reachable s ∧ ¬ s.Finished ∧ writer.system.Stuck s := by
  constructor
  · exact ⟨by decide, fun _ _ _ _ => within_exit () _⟩
  · refine exists_deadlock fun h => ?_
    have hlag := h [] (str "x") 121 [] _ (.write .start) List.nil_prefix rfl
    exact absurd hlag (by decide)

end CgiJob

end MyHttpServer
