/-
  Loggers under any sequence of calls.

  `Sound` is the invariant of the objects: whatever can be reached from a logger
  has a formatter, and the way from a logger over `m_root` ends at the root.

  * `Sound.perform`, `sound_of_reachable`: every call keeps it;
  * `log_delivers`: what a log call hands to whom;
  * `setFormatters_spec`: which formatter an appender is handed texts by;
  * `onePerName_iff`: when `getLogger` gives one logger for each name.
-/
import MyHttpServer.Lib.System
import MyHttpServer.Model.Log

namespace MyHttpServer

namespace LogState

/-! ## The invariant -/

/-- The appender exists and has a formatter. -/
def Formats (s : LogState) (A : AppenderPtr) : Prop :=
  ∃ a, s.appenders[A]? = some a ∧ a.formatter.isSome

/-- What holds of the objects between the calls. -/
structure Sound (s : LogState) : Prop where
  root_lt : s.root < s.loggers.length
  root : ∀ (L : LoggerPtr) (l : Logger), s.loggers[L]? = some l →
    l.root = if L = s.root then none else some s.root
  formatter : ∀ (L : LoggerPtr) (l : Logger), s.loggers[L]? = some l → l.formatter.isSome
  appenders : ∀ (L : LoggerPtr) (l : Logger), s.loggers[L]? = some l →
    ∀ A ∈ l.appenders, s.Formats A

theorem getElem?_modifyLogger (s : LogState) (L M : LoggerPtr) (f : Logger → Logger) :
    (s.modifyLogger L f).loggers[M]? = (s.loggers[M]?).map fun l => if L = M then f l else l := by
  rw [modifyLogger, List.getElem?_modify]
  split_ifs with h <;> simp

theorem getElem?_modifyAppender (s : LogState) (A B : AppenderPtr)
    (f : LogAppender → LogAppender) : (s.modifyAppender A f).appenders[B]? =
      (s.appenders[B]?).map fun a => if A = B then f a else a := by
  rw [modifyAppender, List.getElem?_modify]
  split_ifs with h <;> simp

/-- A logger may be changed if what it points to stays sound. -/
theorem Sound.modifyLogger {s : LogState} (h : s.Sound) {L : LoggerPtr} {f : Logger → Logger}
    (hf : ∀ l : Logger, s.loggers[L]? = some l → (f l).root = l.root ∧ (f l).formatter.isSome ∧
      ∀ A ∈ (f l).appenders, s.Formats A) : (s.modifyLogger L f).Sound := by
  have hold : ∀ (M : LoggerPtr) (l : Logger), (s.modifyLogger L f).loggers[M]? = some l →
      ∃ l', s.loggers[M]? = some l' ∧ l.root = l'.root ∧ l.formatter.isSome ∧
        ∀ A ∈ l.appenders, s.Formats A := by
    intro M l hl
    rw [getElem?_modifyLogger] at hl
    obtain ⟨l', hl', rfl⟩ := Option.map_eq_some_iff.1 hl
    refine ⟨l', hl', ?_⟩
    split_ifs with hLM
    · subst hLM
      exact hf l' hl'
    · exact ⟨rfl, h.formatter M l' hl', h.appenders M l' hl'⟩
  refine ⟨by simpa [LogState.modifyLogger] using h.root_lt, ?_, ?_, ?_⟩
  · intro M l hl
    obtain ⟨l', hl', hr, -, -⟩ := hold M l hl
    exact hr.trans (h.root M l' hl')
  · intro M l hl
    obtain ⟨l', -, -, hsome, -⟩ := hold M l hl
    exact hsome
  · intro M l hl
    obtain ⟨l', -, -, -, happ⟩ := hold M l hl
    exact happ

/-- An appender may be changed if it keeps a formatter. -/
theorem Formats.modifyAppender {s : LogState} {A B : AppenderPtr} {f : LogAppender → LogAppender}
    (hf : ∀ a, a.formatter.isSome → (f a).formatter.isSome) (h : s.Formats B) :
    (s.modifyAppender A f).Formats B := by
  obtain ⟨a, ha, hsome⟩ := h
  refine ⟨if A = B then f a else a, ?_, ?_⟩
  · rw [getElem?_modifyAppender, ha, Option.map_some]
  · split_ifs
    · exact hf a hsome
    · exact hsome

theorem Sound.modifyAppender {s : LogState} (h : s.Sound) {A : AppenderPtr}
    {f : LogAppender → LogAppender} (hf : ∀ a, a.formatter.isSome → (f a).formatter.isSome) :
    (s.modifyAppender A f).Sound where
  root_lt := h.root_lt
  root := h.root
  formatter := h.formatter
  appenders L l hl B hB := (h.appenders L l hl B hB).modifyAppender hf

/-! ## The calls -/

/-- The pointers of a call are those of objects, and no formatter is null. -/
def Refers (s : LogState) : LogCall → Prop
  | .newAppender | .getLogger _ => True
  | .addAppender L A | .delAppender L A => L < s.loggers.length ∧ A < s.appenders.length
  | .clearAppenders L | .setLevel L _ | .setFormatter L _ => L < s.loggers.length
  | .setFormatterPtr L val => L < s.loggers.length ∧ val.isSome
  | .setAppenderLevel A _ => A < s.appenders.length
  | .setAppenderFormatter A val => A < s.appenders.length ∧ val.isSome

theorem Sound.newAppender {s : LogState} (h : s.Sound) : s.newAppender.Sound where
  root_lt := h.root_lt
  root := h.root
  formatter := h.formatter
  appenders L l hl A hA := by
    obtain ⟨a, ha, hsome⟩ := h.appenders L l hl A hA
    exact ⟨a, by simp [LogState.newAppender, List.getElem?_append_left
      (List.getElem?_eq_some_iff.1 ha).1, ha], hsome⟩

/-- The lookup never finds anything: every call makes a logger. -/
theorem getLogger_eq (s : LogState) (name : Bytes) :
    s.getLogger name = (s.loggers.length, { s with
      loggers := s.loggers ++ [{ Logger.new name with root := some s.root }]
      named := s.named ++ [(name, s.loggers.length)] }) := by
  rw [getLogger]
  exact if_neg (not_not.2 rfl)

theorem Sound.getLogger {s : LogState} (h : s.Sound) (name : Bytes) :
    (s.getLogger name).2.Sound := by
  rw [getLogger_eq]
  have hold : ∀ {L l}, (s.loggers ++ [{ Logger.new name with root := some s.root }])[L]? = some l →
      s.loggers[L]? = some l ∨ L = s.loggers.length ∧
        l = { Logger.new name with root := some s.root } := by
    intro L l hl
    rw [List.getElem?_append] at hl
    split_ifs at hl with hlt
    · exact .inl hl
    · have hlast := List.getElem?_eq_some_iff.1 hl
      obtain ⟨hlen, hget⟩ := hlast
      simp only [List.length_singleton] at hlen
      simp only [List.getElem_singleton] at hget
      exact .inr ⟨by omega, hget.symm⟩
  refine ⟨by simpa using h.root_lt.trans (Nat.lt_succ_self _), ?_, ?_, ?_⟩
  · intro L l hl
    rcases hold hl with hl | ⟨rfl, rfl⟩
    · exact h.root L l hl
    · exact (if_neg h.root_lt.ne').symm
  · intro L l hl
    rcases hold hl with hl | ⟨-, rfl⟩
    · exact h.formatter L l hl
    · rfl
  · intro L l hl A hA
    rcases hold hl with hl | ⟨-, rfl⟩
    · exact h.appenders L l hl A hA
    · cases hA

/-- The appender is given the formatter of the logger, if it has none. -/
theorem Sound.addAppender {s : LogState} (h : s.Sound) {L : LoggerPtr} {A : AppenderPtr}
    (hL : L < s.loggers.length) (hA : A < s.appenders.length) : (s.addAppender L A).Sound := by
  obtain ⟨l, hl⟩ : ∃ l, s.loggers[L]? = some l := ⟨_, List.getElem?_eq_getElem hL⟩
  obtain ⟨a, ha⟩ : ∃ a, s.appenders[A]? = some a := ⟨_, List.getElem?_eq_getElem hA⟩
  have hformat := h.formatter L l hl
  have hkey : ∀ {t : LogState}, t.Sound → t.loggers = s.loggers → t.Formats A →
      (t.modifyLogger L fun l => { l with appenders := l.appenders ++ [A] }).Sound := by
    intro t ht hloggers hfmt
    refine ht.modifyLogger ?_
    intro l hl
    refine ⟨rfl, ht.formatter L l hl, ?_⟩
    intro B hB
    rcases List.mem_append.1 hB with hB | hB
    · exact ht.appenders L l hl B hB
    · cases List.mem_singleton.1 hB
      exact hfmt
  rw [LogState.addAppender]
  split_ifs with hnone
  · refine hkey (h.modifyAppender ?_) rfl ⟨{ a with formatter := l.formatter }, ?_, hformat⟩
    · intro b _
      simpa [hl] using hformat
    · rw [setAppenderFormatter, getElem?_modifyAppender, ha, hl]
      simp
  · refine hkey h rfl ⟨a, ha, ?_⟩
    simpa [ha, Option.isSome_iff_ne_none] using hnone

/-- **Every call keeps the objects sound.** -/
theorem Sound.perform {s : LogState} (h : s.Sound) {c : LogCall} (hc : s.Refers c) :
    (s.perform c).Sound := by
  cases c with
  | newAppender => exact h.newAppender
  | getLogger name => exact h.getLogger name
  | addAppender L A => exact h.addAppender hc.1 hc.2
  | delAppender L A =>
    refine h.modifyLogger ?_
    intro l hl
    exact ⟨rfl, h.formatter L l hl, fun B hB => h.appenders L l hl B (List.mem_of_mem_erase hB)⟩
  | clearAppenders L =>
    refine h.modifyLogger ?_
    intro l hl
    exact ⟨rfl, h.formatter L l hl, nofun⟩
  | setLevel L level =>
    refine h.modifyLogger ?_
    intro l hl
    exact ⟨rfl, h.formatter L l hl, h.appenders L l hl⟩
  | setFormatter L val =>
    simp only [LogState.perform, LogState.setFormatter]
    split_ifs
    · exact h
    · refine h.modifyLogger ?_
      intro l hl
      exact ⟨rfl, rfl, h.appenders L l hl⟩
  | setFormatterPtr L val =>
    refine h.modifyLogger ?_
    intro l hl
    exact ⟨rfl, hc.2, h.appenders L l hl⟩
  | setAppenderLevel A level => exact h.modifyAppender fun a ha => ha
  | setAppenderFormatter A val => exact h.modifyAppender fun _ _ => hc.2

theorem sound_new : new.Sound := by
  have h : ({ loggers := [.new (str "root")], appenders := [], named := [], root := 0 } :
      LogState).Sound := by
    have hone : ∀ L l, [Logger.new (str "root")][L]? = some l → L = 0 ∧ l = .new (str "root") := by
      intro L l hl
      obtain ⟨hlt, hget⟩ := List.getElem?_eq_some_iff.1 hl
      simp only [List.length_singleton, Nat.lt_one_iff] at hlt
      subst hlt
      exact ⟨rfl, hget.symm⟩
    refine ⟨by simp, ?_, ?_, ?_⟩
    · intro L l hl
      obtain ⟨rfl, rfl⟩ := hone L l hl
      rfl
    · intro L l hl
      obtain ⟨rfl, rfl⟩ := hone L l hl
      rfl
    · intro L l hl A hA
      obtain ⟨rfl, rfl⟩ := hone L l hl
      cases hA
  exact h.newAppender.addAppender (by simp [LogState.newAppender]) (by simp [LogState.newAppender])

/-- The configurations that calls lead to. -/
def configuring : System LogState where
  init s := s = new
  step s t := ∃ c, s.Refers c ∧ t = s.perform c

theorem sound_of_reachable {s : LogState} (h : configuring.Reachable s) : s.Sound := by
  refine System.Reachable.induct (I := Sound) ?_ ?_ h
  · rintro s rfl
    exact sound_new
  · rintro s t hs ⟨c, hc, rfl⟩
    exact hs.perform hc

/-! ## What a log call hands to whom -/

/-- A record of the level `INFO`. -/
def helloEvent : LogEvent where
  file := str "main.cc"
  line := 1
  elapse := 0
  threadId := 1
  fiberId := 0
  time := 0
  content := str "hello"
  loggerName := str "http"
  level := .INFO

/-- `getLevel()` of an appender. -/
def levelOf (s : LogState) (A : AppenderPtr) : LogLevel :=
  (s.appenders[A]?.map (·.level)).getD .DEBUG

/-- The text of an event in the format of an appender. -/
def textOf (s : LogState) (clock : FormatItem.Clock) (level : LogLevel) (event : LogEvent)
    (A : AppenderPtr) : Bytes :=
  (s.appenders[A]?.bind (·.formatter)).elim [] fun f => f.format clock level event

/-- The appenders that count for a call on the logger `L`: none below its level,
    its own if it has any, and else those of the root, from the level of the root
    on. -/
def effective (s : LogState) (L : LoggerPtr) (level : LogLevel) : List AppenderPtr :=
  s.loggers[L]?.elim [] fun l => s.loggers[s.root]?.elim [] fun r =>
    if ¬ l.level ≤ level then []
    else if l.appenders ≠ [] then l.appenders
    else if r.level ≤ level then r.appenders
    else []

section
variable {s : LogState} {clock : FormatItem.Clock} {level : LogLevel} {event : LogEvent}

theorem deliver_eq {A : AppenderPtr} (h : s.Formats A) :
    s.deliver clock level event A = .ok
      (if s.levelOf A ≤ level then [(A, s.textOf clock level event A)] else []) := by
  obtain ⟨a, ha, hsome⟩ := h
  obtain ⟨f, hf⟩ := Option.isSome_iff_exists.1 hsome
  simp only [deliver, ha, LogAppender.log, hf, levelOf, textOf, Option.map_some, Option.getD_some,
    Option.bind_some, Option.elim]
  split_ifs <;> rfl

/-- **Each appender that is open for the level is handed one text**, in order. -/
theorem deliverAll_eq {As : List AppenderPtr} (h : ∀ A ∈ As, s.Formats A) :
    s.deliverAll clock level event As = .ok
      ((As.filter fun A => s.levelOf A ≤ level).map fun A =>
        (A, s.textOf clock level event A)) := by
  induction As with
  | nil => rfl
  | cons A As ih =>
    rw [deliverAll, deliver_eq (h A (by simp)), ih fun B hB => h B (by simp [hB])]
    by_cases hl : s.levelOf A ≤ level <;> simp [hl]

/-- **Log delivery**: a call ends after at most one call on the root, uses no null
    formatter, and hands the event once to each entry of the effective list whose
    level is not above that of the call. -/
theorem log_delivers (h : configuring.Reachable s) {L : LoggerPtr} (hL : L < s.loggers.length)
    {n : ℕ} (hn : 2 ≤ n) :
    s.log clock level event n L = some (.ok
      (((s.effective L level).filter fun A => s.levelOf A ≤ level).map fun A =>
        (A, s.textOf clock level event A))) := by
  have hs := sound_of_reachable h
  obtain ⟨l, hl⟩ : ∃ l, s.loggers[L]? = some l := ⟨_, List.getElem?_eq_getElem hL⟩
  obtain ⟨r, hr⟩ : ∃ r, s.loggers[s.root]? = some r := ⟨_, List.getElem?_eq_getElem hs.root_lt⟩
  obtain ⟨n, rfl⟩ := Nat.exists_eq_add_of_le' hn
  have hlroot := hs.root L l hl
  have hrroot := hs.root s.root r hr
  rw [if_pos rfl] at hrroot
  simp only [effective, hl, hr, Option.elim]
  rw [log, hl]
  by_cases hlevel : l.level ≤ level
  · simp only [if_pos hlevel, not_not.2 hlevel, if_false]
    by_cases happ : l.appenders ≠ []
    · simp only [if_pos happ, deliverAll_eq (hs.appenders L l hl)]
    simp only [if_neg happ]
    by_cases hroot : L = s.root
    · -- the root has no root: nothing is handed on
      rw [if_pos hroot] at hlroot
      subst hroot
      cases hl.symm.trans hr
      simp only [hlroot, not_not.1 happ]
      rw [ite_self]
      rfl
    · rw [if_neg hroot] at hlroot
      simp only [hlroot, log, hr]
      by_cases hrlevel : r.level ≤ level
      · by_cases hrapp : r.appenders ≠ []
        · simp only [if_pos hrlevel, if_pos hrapp, deliverAll_eq (hs.appenders s.root r hr)]
        · simp only [if_pos hrlevel, hrroot, not_not.1 hrapp]
          rfl
      · simp only [if_neg hrlevel]
        rfl
  · simp only [if_neg hlevel, if_pos hlevel]
    rfl

/-- A logger without appenders: the text goes to the appender of the root. -/
theorem log_delivers_root :
    let s := (new.getLogger (str "http")).2
    s.log ⟨fun _ _ => none, []⟩ .INFO helloEvent 2 1 = some (.ok
      (((s.effective 1 .INFO).filter fun A => s.levelOf A ≤ .INFO).map fun A =>
        (A, s.textOf ⟨fun _ _ => none, []⟩ .INFO helloEvent A))) := by
  refine log_delivers ?_ (by decide) le_rfl
  exact .step (.init rfl) ⟨.getLogger (str "http"), trivial, rfl⟩

/-! ## Which formatter an appender is handed texts by -/

/-- Calls of `setFormatter(const string& val)`, on any loggers. -/
def setFormatters (s : LogState) (calls : List (LoggerPtr × Bytes)) : LogState :=
  calls.foldl (fun s c => s.setFormatter c.1 c.2) s

/-- The formatter of a logger. -/
def formatterOf (s : LogState) (L : LoggerPtr) : Option LogFormatter :=
  s.loggers[L]?.bind (·.formatter)

/-- The patterns for the logger `L` that compile. -/
def accepted (L : LoggerPtr) (calls : List (LoggerPtr × Bytes)) : List Bytes :=
  (calls.filter fun c => c.1 = L ∧ (LogFormatter.new c.2).isError = false).map Prod.snd

/-- The formatter of the last pattern for `L` that compiles, and `f` if none does. -/
def lastGood (f : LogFormatter) (L : LoggerPtr) (calls : List (LoggerPtr × Bytes)) :
    LogFormatter :=
  (accepted L calls).getLast?.elim f .new

theorem setFormatter_of_isError {val : Bytes} (h : (LogFormatter.new val).isError = true)
    (M : LoggerPtr) : s.setFormatter M val = s :=
  if_pos h

@[simp] theorem setFormatter_appenders (M : LoggerPtr) (val : Bytes) :
    (s.setFormatter M val).appenders = s.appenders := by
  simp only [setFormatter]
  split_ifs <;> rfl

@[simp] theorem setFormatters_appenders (calls : List (LoggerPtr × Bytes)) :
    (s.setFormatters calls).appenders = s.appenders := by
  induction calls generalizing s with
  | nil => rfl
  | cons c calls ih => exact ih.trans (setFormatter_appenders _ _)

theorem formatterOf_setFormatter {f : LogFormatter} {L : LoggerPtr}
    (h : s.formatterOf L = some f) (M : LoggerPtr) (val : Bytes) :
    (s.setFormatter M val).formatterOf L = some
      (if M = L ∧ (LogFormatter.new val).isError = false then .new val else f) := by
  by_cases herr : (LogFormatter.new val).isError = true
  · rw [setFormatter_of_isError herr, h, if_neg (by simp [herr])]
  · obtain ⟨l, hl, hf⟩ := Option.bind_eq_some_iff.1 h
    simp only [setFormatter, if_neg herr, setFormatterPtr, formatterOf, getElem?_modifyLogger, hl,
      Option.map_some, Option.bind_some]
    by_cases hM : M = L <;> simp [hM, herr, hf]

/-- **A logger has the last pattern that compiled.** -/
theorem formatterOf_setFormatters {f : LogFormatter} {L : LoggerPtr}
    (h : s.formatterOf L = some f) (calls : List (LoggerPtr × Bytes)) :
    (s.setFormatters calls).formatterOf L = some (lastGood f L calls) := by
  induction calls generalizing s f with
  | nil => exact h
  | cons c calls ih =>
    refine (ih (formatterOf_setFormatter h c.1 c.2)).trans ?_
    congr 1
    simp only [lastGood, accepted, List.filter_cons]
    by_cases hc : c.1 = L ∧ (LogFormatter.new c.2).isError = false
    · rw [if_pos hc, if_pos (decide_eq_true hc), List.map_cons, List.getLast?_cons]
      cases ((calls.filter _).map Prod.snd).getLast? <;> rfl
    · rw [if_neg hc, if_neg (by simpa using hc)]

/-- An appender without a formatter gets that of the logger. -/
theorem appenders_addAppender {L : LoggerPtr} {A : AppenderPtr} {a : LogAppender}
    (ha : s.appenders[A]? = some a) (hnone : a.formatter = none) :
    (s.addAppender L A).appenders[A]? = some { a with formatter := s.formatterOf L } := by
  simp only [addAppender, ha, Option.bind_some, hnone, Option.isNone_none, if_true]
  show (s.setAppenderFormatter A (s.formatterOf L)).appenders[A]? = _
  simp only [setAppenderFormatter, getElem?_modifyAppender, ha, Option.map_some, if_true]

theorem deliver_of_formatter {A : AppenderPtr} {a : LogAppender} {f : LogFormatter}
    (ha : s.appenders[A]? = some { a with formatter := some f }) :
    s.deliver clock level event A = .ok
      (if a.level ≤ level then [(A, f.format clock level event)] else []) := by
  rw [deliver_eq ⟨_, ha, rfl⟩]
  simp only [levelOf, textOf, ha, Option.map_some, Option.getD_some, Option.bind_some, Option.elim]

/-- **The formatter of an appender is fixed when it is added**: later patterns do
    not change what it is handed.  They count for what is added after them, and
    a pattern that does not compile counts for nothing. -/
theorem setFormatters_spec (h : configuring.Reachable s) {L : LoggerPtr}
    (hL : L < s.loggers.length) {A : AppenderPtr} {a : LogAppender}
    (ha : s.appenders[A]? = some a) (hnone : a.formatter = none)
    (calls : List (LoggerPtr × Bytes)) :
    ∃ f, s.formatterOf L = some f ∧
      (∀ clock level event,
        ((s.addAppender L A).setFormatters calls).deliver clock level event A = .ok
          (if a.level ≤ level then [(A, f.format clock level event)] else [])) ∧
      (∀ B b, ((s.addAppender L A).setFormatters calls).appenders[B]? = some b →
        b.formatter = none → ∀ clock level event,
          (((s.addAppender L A).setFormatters calls).addAppender L B).deliver clock level event B =
            .ok (if b.level ≤ level then
              [(B, (lastGood f L calls).format clock level event)] else [])) ∧
      ∀ t : LogState, ∀ M val, (LogFormatter.new val).isError = true →
        t.setFormatter M val = t := by
  have hl := List.getElem?_eq_getElem hL
  obtain ⟨f, hf⟩ := Option.isSome_iff_exists.1 ((sound_of_reachable h).formatter L _ hl)
  have hof : s.formatterOf L = some f := by rw [formatterOf, hl, Option.bind_some, hf]
  refine ⟨f, hof, ?_, ?_, fun t M val herr => setFormatter_of_isError herr M⟩
  · intro clock level event
    refine deliver_of_formatter ?_
    rw [setFormatters_appenders, appenders_addAppender ha hnone, hof]
  · intro B b hb hbnone clock level event
    refine deliver_of_formatter ?_
    have hadd : (s.addAppender L A).formatterOf L = some f := by
      simp only [addAppender, formatterOf, getElem?_modifyLogger]
      split_ifs <;> simp [setAppenderFormatter, LogState.modifyAppender, hl, hf]
    rw [appenders_addAppender hb hbnone, formatterOf_setFormatters hadd]

/-- A logger, and an appender without a formatter. -/
def oneLogger : LogState := (new.newAppender.getLogger (str "http")).2

theorem reachable_oneLogger : configuring.Reachable oneLogger :=
  .step (.step (.init rfl) ⟨.newAppender, trivial, rfl⟩) ⟨.getLogger (str "http"), trivial, rfl⟩

/-- A pattern that compiles, set behind `addAppender`, and one that does not. -/
theorem setFormatters_spec_oneLogger :
    let calls := [(1, str "%m"), (1, str "%\x7b")]
    ∃ f, oneLogger.formatterOf 1 = some f ∧
      (∀ clock level event,
        ((oneLogger.addAppender 1 1).setFormatters calls).deliver clock level event 1 = .ok
          (if LogLevel.DEBUG ≤ level then [(1, f.format clock level event)] else [])) ∧
      (∀ B b, ((oneLogger.addAppender 1 1).setFormatters calls).appenders[B]? = some b →
        b.formatter = none → ∀ clock level event,
          (((oneLogger.addAppender 1 1).setFormatters calls).addAppender 1 B).deliver clock level
              event B =
            .ok (if b.level ≤ level then
              [(B, (lastGood f 1 calls).format clock level event)] else [])) ∧
      ∀ t : LogState, ∀ M val, (LogFormatter.new val).isError = true →
        t.setFormatter M val = t :=
  setFormatters_spec (a := {}) reachable_oneLogger (by decide) rfl rfl _

/-- The pattern compiles, and the appender is not handed the text of it. -/
theorem pattern_ignored :
    configuring.Reachable oneLogger ∧
      (oneLogger.appenders[1]?).map (·.formatter) = some none ∧
      (LogFormatter.new (str "%m")).isError = false ∧
      ((oneLogger.addAppender 1 1).setFormatter 1 (str "%m")).deliver ⟨fun _ _ => none, []⟩ .INFO
          helloEvent 1 ≠
        .ok [(1, (LogFormatter.new (str "%m")).format ⟨fun _ _ => none, []⟩ .INFO helloEvent)] := by
  refine ⟨reachable_oneLogger, rfl, by decide +kernel, ?_⟩
  decide +kernel

end

/-! ## One logger for each name -/

/-- The names that are asked for. -/
def asked : List LogCall → List Bytes
  | [] => []
  | .getLogger name :: calls => name :: asked calls
  | _ :: calls => asked calls

/-- What the calls of `getLogger` return, with the names. -/
def obtained (s : LogState) : List LogCall → List (Bytes × LoggerPtr)
  | [] => []
  | .getLogger name :: calls =>
    (name, (s.getLogger name).1) :: obtained (s.perform (.getLogger name)) calls
  | c :: calls => obtained (s.perform c) calls

/-- The same name gives the same logger, and different names give different ones. -/
def OnePerName (rs : List (Bytes × LoggerPtr)) : Prop :=
  rs.Pairwise fun a b => a.1 = b.1 ↔ a.2 = b.2

theorem loggers_length_le (s : LogState) (c : LogCall) :
    s.loggers.length ≤ (s.perform c).loggers.length := by
  cases c with
  | getLogger name => simp [perform, getLogger_eq]
  | addAppender L A =>
    simp only [perform, addAppender, modifyLogger, List.length_modify]
    split_ifs <;> rfl
  | setFormatter L val =>
    simp only [perform, setFormatter]
    split_ifs
    · rfl
    · simp [setFormatterPtr, modifyLogger]
  | newAppender => rfl
  | setAppenderLevel A level => rfl
  | setAppenderFormatter A val => rfl
  | delAppender L A => simp [perform, delAppender, modifyLogger]
  | clearAppenders L => simp [perform, clearAppenders, modifyLogger]
  | setLevel L level => simp [perform, setLevel, modifyLogger]
  | setFormatterPtr L val => simp [perform, setFormatterPtr, modifyLogger]

theorem obtained_map_fst (s : LogState) (calls : List LogCall) :
    (s.obtained calls).map Prod.fst = asked calls := by
  induction s, calls using obtained.induct with
  | case1 s => rfl
  | case2 s name calls ih => exact congrArg (name :: ·) ih
  | case3 s c calls hc ih => simpa [obtained, asked] using ih

/-- A logger that is returned has just been made. -/
theorem le_of_mem_obtained {s : LogState} {calls : List LogCall} {r : Bytes × LoggerPtr}
    (h : r ∈ s.obtained calls) : s.loggers.length ≤ r.2 := by
  induction s, calls using obtained.induct with
  | case1 s => cases h
  | case2 s name calls ih =>
    rcases List.mem_cons.1 h with rfl | h
    · rw [getLogger_eq]
    · exact (loggers_length_le s _).trans (ih h)
  | case3 s c calls hc ih =>
    rw [obtained] at h
    · exact (loggers_length_le s c).trans (ih h)
    · exact hc

/-- **Every call returns another logger.** -/
theorem obtained_pairwise (s : LogState) (calls : List LogCall) :
    (s.obtained calls).Pairwise fun a b => a.2 ≠ b.2 := by
  induction s, calls using obtained.induct with
  | case1 s => exact .nil
  | case2 s name calls ih =>
    refine .cons ?_ ih
    intro r hr
    have hle := le_of_mem_obtained hr
    simp only [perform, getLogger_eq, List.length_append, List.length_singleton] at hle ⊢
    exact (Nat.lt_of_succ_le hle).ne
  | case3 s c calls hc ih =>
    rw [obtained]
    · exact ih
    · exact hc

/-- **One logger for each name**, if and only if no name is asked for twice. -/
theorem onePerName_iff (calls : List LogCall) :
    OnePerName (new.obtained calls) ↔ (asked calls).Nodup := by
  have hne := obtained_pairwise new calls
  rw [← obtained_map_fst new calls, List.Nodup, List.pairwise_map]
  constructor
  · intro h
    refine (h.and hne).imp ?_
    rintro a b ⟨hiff, hab⟩ hname
    exact hab (hiff.1 hname)
  · intro h
    refine (h.and hne).imp ?_
    rintro a b ⟨hname, hab⟩
    exact iff_of_false hname hab

/-- The level is set, and the name is asked for again. -/
def levelLost : List LogCall :=
  [.getLogger (str "http"), .setLevel 1 .ERROR, .getLogger (str "http")]

/-- Two loggers of one name, of which the second has the level of the start. -/
theorem logger_replaced :
    new.obtained levelLost = [(str "http", 1), (str "http", 2)] ∧
      ¬ OnePerName (new.obtained levelLost) ∧
      (levelLost.foldl perform new).loggers[1]?.map (·.level) = some .ERROR ∧
      (levelLost.foldl perform new).loggers[2]?.map (·.level) = some .DEBUG := by
  refine ⟨rfl, ?_, rfl, rfl⟩
  intro h
  have hsame := (List.pairwise_cons.1 h).1 (str "http", 2) (List.mem_singleton_self _)
  exact absurd (hsame.1 rfl) (by decide)

end LogState

end MyHttpServer
