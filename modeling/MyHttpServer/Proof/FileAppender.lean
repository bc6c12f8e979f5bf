/-
  What is in the file of a `FileLogAppender` after any sequence of calls.

  The stream is closed until the first `reopen`, and every `reopen` truncates the
  file.

  * `performAll_reopen`: the file holds what has been logged since the last
    `reopen`;
  * `records_kept_iff`: when nothing is lost.
-/
import MyHttpServer.Proof.Logger

namespace MyHttpServer

namespace FileLogAppender

/-- The text of a call that logs at the level of the appender or above. -/
def due (level : LogLevel) (f : LogFormatter) : FileCall → Option Bytes
  | .log clock l event => if level ≤ l then some (f.format clock l event) else none
  | .reopen => none

/-- The texts that are to be in the file. -/
def dueAll (level : LogLevel) (f : LogFormatter) (calls : List FileCall) : List Bytes :=
  calls.filterMap (due level f)

/-- The appender, with a stream. -/
def ofStream (level : LogLevel) (f : LogFormatter) (filestream : Ofstream) : FileLogAppender :=
  { level, formatter := some f, filestream }

section
variable {level : LogLevel} {f : LogFormatter} {o : Ofstream} {file : LogFile}

theorem performAll_append (a : FileLogAppender) (front back : List FileCall) :
    a.performAll file (front ++ back) = (a.performAll file front).bind fun s =>
      s.1.performAll s.2 back := by
  induction front generalizing a file with
  | nil => rfl
  | cons c front ih =>
    simp only [List.cons_append, performAll]
    cases a.perform file c with
    | error e => rfl
    | ok s => exact ih s.1

/-- A call that is not due does nothing. -/
theorem performAll_of_not_le {l : LogLevel} (h : ¬ level ≤ l) (clock : FormatItem.Clock)
    (event : LogEvent) (calls : List FileCall) :
    (ofStream level f o).performAll file (.log clock l event :: calls) =
      (ofStream level f o).performAll file calls := by
  simp only [performAll, perform, log, LogAppender.log, ofStream, h, reduceIte, Except.ok_bind,
    Except.pure_eq_ok]

/-- A call that is due writes. -/
theorem performAll_of_le {l : LogLevel} (h : level ≤ l) (clock : FormatItem.Clock)
    (event : LogEvent) (calls : List FileCall) :
    (ofStream level f o).performAll file (.log clock l event :: calls) =
      (ofStream level f (o.write file (f.format clock l event)).1).performAll
        (o.write file (f.format clock l event)).2 calls := by
  simp only [performAll, perform, log, LogAppender.log, ofStream, h, reduceIte, Except.ok_bind,
    Except.pure_eq_ok]

/-- No stream is open and has failed, so that a file is always opened anew. -/
theorem perform_reopen (h : ¬ (o.isOpen ∧ o.failbit)) :
    (ofStream level f o).perform file .reopen = .ok (ofStream level f ⟨true, false⟩, ⟨[], []⟩) := by
  obtain ⟨isOpen, failbit⟩ := o
  cases isOpen
  · cases failbit <;> rfl
  · cases failbit
    · rfl
    · exact absurd ⟨rfl, rfl⟩ h

theorem write_not_failed (h : ¬ (o.isOpen ∧ o.failbit)) (text : Bytes) :
    ¬ ((o.write file text).1.isOpen ∧ (o.write file text).1.failbit) := by
  obtain ⟨isOpen, failbit⟩ := o
  cases isOpen <;> cases failbit <;> simp_all [Ofstream.write]

/-- **No call fails**, and the stream stays usable. -/
theorem exists_performAll (h : ¬ (o.isOpen ∧ o.failbit)) (calls : List FileCall) :
    ∃ o' file', (ofStream level f o).performAll file calls = .ok (ofStream level f o', file') ∧
      ¬ (o'.isOpen ∧ o'.failbit) := by
  induction calls generalizing o file with
  | nil => exact ⟨o, file, rfl, h⟩
  | cons c calls ih =>
    cases c with
    | reopen =>
      rw [performAll, perform_reopen h]
      exact ih (by simp)
    | log clock l event =>
      by_cases hl : level ≤ l
      · rw [performAll_of_le hl]
        exact ih (write_not_failed h _)
      · rw [performAll_of_not_le hl]
        exact ih h

/-- Into an open stream, everything is written. -/
theorem performAll_open {calls : List FileCall} (h : FileCall.reopen ∉ calls) :
    (ofStream level f ⟨true, false⟩).performAll file calls = .ok
      (ofStream level f ⟨true, false⟩,
        { file with records := file.records ++ dueAll level f calls }) := by
  induction calls generalizing file with
  | nil => simp [performAll, dueAll]
  | cons c calls ih =>
    rw [List.mem_cons, not_or] at h
    cases c with
    | reopen => exact absurd rfl h.1
    | log clock l event =>
      by_cases hl : level ≤ l
      · rw [performAll_of_le hl]
        refine (ih h.2).trans ?_
        simp [Ofstream.write, dueAll, due, hl]
      · rw [performAll_of_not_le hl, ih h.2]
        simp [dueAll, due, hl]

/-- Without a `reopen`, the file is left alone. -/
theorem performAll_closed (ho : o.isOpen = false) {calls : List FileCall}
    (h : FileCall.reopen ∉ calls) :
    ∃ o', (ofStream level f o).performAll file calls = .ok (ofStream level f o', file) := by
  induction calls generalizing o with
  | nil => exact ⟨o, rfl⟩
  | cons c calls ih =>
    rw [List.mem_cons, not_or] at h
    cases c with
    | reopen => exact absurd rfl h.1
    | log clock l event =>
      by_cases hl : level ≤ l
      · rw [performAll_of_le hl]
        have hwrite : (o.write file (f.format clock l event)).1.isOpen = false ∧
            (o.write file (f.format clock l event)).2 = file := by
          simp only [Ofstream.write, ho, Bool.false_eq_true, if_false]
          split_ifs
          · exact ⟨ho, rfl⟩
          · exact ⟨rfl, rfl⟩
        rw [hwrite.2]
        exact ih hwrite.1 h.2
      · rw [performAll_of_not_le hl]
        exact ih ho h.2

/-- **What is in the file**: what has been logged since the last `reopen`. -/
theorem performAll_reopen (h : ¬ (o.isOpen ∧ o.failbit)) (front : List FileCall)
    {back : List FileCall} (hback : FileCall.reopen ∉ back) :
    (ofStream level f o).performAll file (front ++ .reopen :: back) = .ok
      (ofStream level f ⟨true, false⟩, ⟨[], dueAll level f back⟩) := by
  obtain ⟨o', file', hfront, ho'⟩ := @exists_performAll level f o file h front
  rw [performAll_append, hfront]
  show (ofStream level f o').performAll file' (.reopen :: back) = _
  rw [performAll, perform_reopen ho', Except.ok_bind]
  exact performAll_open hback

/-- The calls around the last `reopen`. -/
theorem eq_append_reopen {calls : List FileCall} (h : FileCall.reopen ∈ calls) :
    ∃ front back, calls = front ++ .reopen :: back ∧ FileCall.reopen ∉ back := by
  obtain ⟨back, front, heq, hback⟩ := List.eq_append_cons_of_mem (List.mem_reverse.2 h)
  refine ⟨front.reverse, back.reverse, ?_, by simpa using hback⟩
  rw [← List.reverse_reverse calls, heq]
  simp

theorem dueAll_eq_nil {calls : List FileCall} :
    dueAll level f calls = [] ↔
      ∀ clock l event, .log clock l event ∈ calls → ¬ level ≤ l := by
  rw [dueAll, List.filterMap_eq_nil_iff]
  constructor
  · intro h clock l event hmem hl
    have := h _ hmem
    rw [due, if_pos hl] at this
    cases this
  · intro h c hc
    cases c with
    | reopen => rfl
    | log clock l event => exact if_neg (h clock l event hc)

/-- **Nothing is lost**, if and only if every record that is due is logged after a
    `reopen`, and none follows it. -/
theorem records_kept_iff (level : LogLevel) (f : LogFormatter) (before : Bytes)
    (calls : List FileCall) :
    ∃ a file, FileLogAppender.performAll { level, formatter := some f } ⟨before, []⟩ calls =
        .ok (a, file) ∧
      (file.records = dueAll level f calls ↔
        ∀ front clock l event back, calls = front ++ .log clock l event :: back → level ≤ l →
          .reopen ∈ front ∧ .reopen ∉ back) := by
  by_cases hre : FileCall.reopen ∈ calls
  · obtain ⟨early, late, rfl, hlate⟩ := eq_append_reopen hre
    refine ⟨_, _, performAll_reopen (by simp) early hlate, ?_⟩
    have hsplit : dueAll level f (early ++ .reopen :: late) =
        dueAll level f early ++ dueAll level f late := by
      rw [dueAll, List.filterMap_append, List.filterMap_cons_none rfl, dueAll, dueAll]
    rw [hsplit, List.self_eq_append_left, dueAll_eq_nil]
    constructor
    · intro h front clock l event back heq hl
      rcases List.append_eq_append_iff.1 heq with ⟨mid, rfl, hmid⟩ | ⟨mid, rfl, hmid⟩
      · -- behind the last `reopen`
        cases mid with
        | nil => cases hmid
        | cons c mid =>
          cases hmid
          exact ⟨by simp, fun hmem => hlate (by simp [hmem])⟩
      · cases mid with
        | nil => cases hmid
        | cons c mid =>
          cases hmid
          exact absurd hl (h clock l event (by simp))
    · intro h clock l event hmem hl
      obtain ⟨p, q, rfl⟩ := List.append_of_mem hmem
      refine (h p clock l event (q ++ .reopen :: late) (by simp) hl).2 ?_
      simp
  · obtain ⟨o, hrun⟩ := @performAll_closed level f {} ⟨before, []⟩ rfl _ hre
    refine ⟨_, _, hrun, ?_⟩
    rw [eq_comm, dueAll_eq_nil]
    constructor
    · rintro h front clock l event back rfl hl
      exact absurd hl (h clock l event (by simp))
    · intro h clock l event hmem hl
      obtain ⟨front, back, rfl⟩ := List.append_of_mem hmem
      exact hre (by simp [(h front clock l event back rfl hl).1])

end

/-- A record is logged before the first `reopen`, and another before the second. -/
def rotation : List FileCall :=
  [.log ⟨fun _ _ => none, []⟩ .INFO LogState.helloEvent, .reopen,
    .log ⟨fun _ _ => none, []⟩ .INFO LogState.helloEvent, .reopen]

/-- Both records are lost. -/
theorem rotation_loses :
    ∃ a, FileLogAppender.performAll { formatter := some (.new (str "%m")) } ⟨[], []⟩ rotation =
        .ok (a, ⟨[], []⟩) ∧
      dueAll .DEBUG (.new (str "%m")) rotation = [str "hello", str "hello"] := by
  refine ⟨ofStream .DEBUG (.new (str "%m")) ⟨true, false⟩, ?_, ?_⟩
  · exact performAll_reopen (by simp) (rotation.take 3) List.not_mem_nil
  · decide +kernel

end FileLogAppender

end MyHttpServer
