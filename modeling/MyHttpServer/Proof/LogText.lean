/-
  What the logger of the server writes, read back.

  Every record of the root logger is one line of seven fields with tabs between
  them, the last of which is the text.  No line that a client sends has a line
  end in it when it is logged, so that nobody can end a record, or make one up.
  The server also writes lines of its own to `std::cout`, which are not part of
  what is read here.

  * `written_eq`: what the appender writes for an event;
  * `readEntry_record`, `readLog_lines`: one record, and all of them, read back;
  * `Logged.notMem`: what the server logs has no line end;
  * `readLog_logText`: the records of the server, read back.
-/
import MyHttpServer.Proof.Logger
import MyHttpServer.Proof.Pattern
import MyHttpServer.Proof.RequestLine

namespace MyHttpServer

/-! ## What is written -/

/-- `LOG_LEVEL(LOG_ROOT(), level) << content`: what `StdoutLogAppender` writes for an
    event, if nothing has been configured. -/
def written (clock : FormatItem.Clock) (event : LogEvent) : Bytes :=
  match LogState.new.log clock event.level event 2 LogState.new.root with
  | some (.ok texts) => texts.flatMap (·.2)
  | _ => []

/-- All that it writes, without what others write between two records. -/
def logText (clock : FormatItem.Clock) (events : List LogEvent) : Bytes :=
  events.flatMap (written clock)

/-- `'\t'` -/
def TAB : UInt8 := 9

/-- The format of the time. -/
def DATE : Bytes := str "%Y-%m-%d %H:%M:%S"

/-- The line of an event. -/
def record (date : Bytes) (event : LogEvent) : Bytes :=
  date ++ TAB :: (decimal event.threadId ++ TAB :: (decimal event.fiberId ++ TAB ::
    (str "[" ++ event.level.toString ++ str "]" ++ TAB ::
      (str "[" ++ event.loggerName ++ str "]" ++ TAB ::
        (event.file ++ ch ':' :: stdToString event.line ++ TAB :: event.content)))))

section
variable {clock : FormatItem.Clock} {event : LogEvent}

/-- The formatter of the root logger. -/
theorem rootFormatter_items : LogState.new.appenders.map (·.formatter.map (·.items)) =
    [some [.dateTime DATE, .tab, .threadId, .tab, .fiberId, .tab, .string (str "["), .level,
      .string (str "]"), .tab, .string (str "["), .name, .string (str "]"), .tab, .filename,
      .string (str ":"), .line, .tab, .message, .newLine]] := by
  decide +kernel

/-- **What is written for an event** of the level `DEBUG` or above. -/
theorem written_eq {date : Bytes} (hdate : clock.strftime DATE event.time = some date) :
    written clock event =
      if LogLevel.DEBUG ≤ event.level then record date event ++ [LF] else [] := by
  have happ : ∃ f, LogState.new.appenders = [⟨.DEBUG, some f⟩] := ⟨_, rfl⟩
  obtain ⟨f, hf⟩ := happ
  have hitems := rootFormatter_items
  simp only [hf, List.map_cons, List.map_nil, Option.map_some, List.cons.injEq, Option.some.injEq,
    and_true] at hitems
  have htext : f.format clock event.level event = record date event ++ [LF] := by
    have hcolon : str ":" = [ch ':'] := by decide
    simp only [LogFormatter.format, hitems, List.flatMap_cons, List.flatMap_nil, FormatItem.format,
      hdate, Option.getD_some, record, hcolon, TAB, List.append_assoc, List.cons_append,
      List.nil_append]
  have hlog : LogState.new.log clock event.level event 2 LogState.new.root =
      if LogLevel.DEBUG ≤ event.level then
        some (LogState.new.deliverAll clock event.level event [0]) else some (.ok []) := rfl
  have hall : LogState.new.deliverAll clock event.level event [0] = .ok
      (if LogLevel.DEBUG ≤ event.level then [(0, record date event ++ [LF])] else []) := by
    rw [LogState.deliverAll_eq]
    · have hlevel : LogState.new.levelOf 0 = .DEBUG := by simp [LogState.levelOf, hf]
      have hown : LogState.new.textOf clock event.level event 0 = record date event ++ [LF] := by
        rw [← htext]
        simp [LogState.textOf, hf]
      by_cases hl : LogLevel.DEBUG ≤ event.level <;> simp [hlevel, hown, hl]
    · intro A hA
      rw [List.mem_singleton.1 hA]
      exact ⟨⟨.DEBUG, some f⟩, by simp [hf], rfl⟩
  rw [written, hlog, hall]
  split_ifs
  · simp
  · rfl

end

/-! ## Reading it back -/

/-- What the line of an event says. -/
structure Entry where
  date : Bytes
  threadId : ℕ
  fiberId : ℕ
  level : LogLevel
  loggerName : Bytes
  file : Bytes
  line : ℤ
  content : Bytes
  deriving DecidableEq

/-- The field without its brackets. -/
def unbracket (s : Bytes) : Bytes := s.tail.dropLast

/-- What is in front of the last `':'`, and what is behind it. -/
def cutPlace (place : Bytes) : Bytes × Bytes :=
  (((place.reverse.dropWhile (· ≠ ch ':')).tail).reverse,
    (place.reverse.takeWhile (· ≠ ch ':')).reverse)

/-- The entry of a line; a text may have tabs in it. -/
def readEntry (line : Bytes) : Option Entry :=
  match line.splitOn TAB with
  | date :: threadId :: fiberId :: level :: name :: place :: content => some {
      date
      threadId := digitsValue 0 threadId
      fiberId := digitsValue 0 fiberId
      level := .fromString (unbracket level)
      loggerName := unbracket name
      file := (cutPlace place).1
      line := atoi (cutPlace place).2
      content := [TAB].intercalate content }
  | _ => none

/-- The entries of all lines. -/
def readLog (text : Bytes) : List (Option Entry) := (text.splitOn LF).dropLast.map readEntry

/-- The entry of an event. -/
def entry (date : Bytes) (event : LogEvent) : Entry :=
  { event with date }

/-- The lines of a text are read back. -/
theorem splitOn_lines {ls : List Bytes} (h : ∀ l ∈ ls, LF ∉ l) :
    (ls.flatMap (· ++ [LF])).splitOn LF = ls ++ [[]] := by
  induction ls with
  | nil => rfl
  | cons l ls ih =>
    rw [List.flatMap_cons, List.append_assoc, List.singleton_append,
      List.splitOn_append_cons_self_of_not_mem (h l (by simp)),
      ih fun m hm => h m (by simp [hm]), List.cons_append]

theorem readLog_lines {ls : List Bytes} (h : ∀ l ∈ ls, LF ∉ l) :
    readLog (ls.flatMap (· ++ [LF])) = ls.map readEntry := by
  rw [readLog, splitOn_lines h, List.dropLast_concat]

/-- `fromString` reads what `toString` writes. -/
theorem LogLevel.fromString_toString (l : LogLevel) : fromString l.toString = l := by
  cases l <;> decide +kernel

theorem unbracket_eq (s : Bytes) : unbracket (str "[" ++ s ++ str "]") = s := by
  have h1 : str "[" = [91] := by decide
  have h2 : str "]" = [93] := by decide
  simp [unbracket, h1, h2]

theorem cutPlace_eq (file : Bytes) {line : Bytes} (h : ch ':' ∉ line) :
    cutPlace (file ++ ch ':' :: line) = (file, line) := by
  have hall : ∀ c ∈ line.reverse, decide (c ≠ ch ':') = true := by
    rintro c hc
    refine decide_eq_true ?_
    rintro rfl
    exact h (List.mem_reverse.1 hc)
  have hrev : (file ++ ch ':' :: line).reverse = line.reverse ++ ch ':' :: file.reverse := by simp
  rw [cutPlace, hrev, List.takeWhile_append_of_pos hall, List.dropWhile_append_of_pos hall]
  simp

/-- A number is written with digits and a `'-'`. -/
theorem mem_stdToString {n : ℤ} {c : UInt8} (h : c ∈ stdToString n) :
    c = ch '-' ∨ 48 ≤ c ∧ c ≤ 57 := by
  cases n with
  | ofNat n => exact .inr (mem_decimal h)
  | negSucc n =>
    have hsign : str "-" = [ch '-'] := by decide
    rw [stdToString, hsign] at h
    rcases List.mem_append.1 h with h | h
    · exact .inl (List.mem_singleton.1 h)
    · exact .inr (mem_decimal h)

/-- `atoi` reads what is written for an `int`. -/
theorem atoi_stdToString {n : ℤ} (h : -2 ^ 31 ≤ n ∧ n < 2 ^ 31) : atoi (stdToString n) = n := by
  cases n with
  | ofNat n => exact atoi_decimal (Int.ofNat_lt.1 h.2)
  | negSucc n =>
    have hsign : str "-" = [45] := by decide
    have hspace : isSpace 45 = false := by decide
    have hvalue : strtol (stdToString (.negSucc n)) = Int.negSucc n := by
      rw [stdToString, hsign, List.singleton_append, strtol,
        List.dropWhile_cons_of_neg (by simp [hspace])]
      simp only [if_true, digitsValue_decimal]
      omega
    rw [atoi, hvalue, toInt, BitVec.toInt_ofInt]
    exact Int.bmod_eq_of_le (by norm_num; omega) (by norm_num; omega)

/-- The event fits into a line: its members are what they are meant to be. -/
structure LogEvent.Plain (event : LogEvent) : Prop where
  file : TAB ∉ event.file ∧ LF ∉ event.file
  loggerName : TAB ∉ event.loggerName ∧ LF ∉ event.loggerName
  line : -2 ^ 31 ≤ event.line ∧ event.line < 2 ^ 31

section
variable {clock : FormatItem.Clock} {event : LogEvent} {date : Bytes}

theorem notMem_digits {n : ℕ} : TAB ∉ decimal n ∧ LF ∉ decimal n := by
  refine ⟨fun h => ?_, fun h => ?_⟩
  · exact absurd (mem_decimal h) (by decide)
  · exact absurd (mem_decimal h) (by decide)

theorem notMem_stdToString {n : ℤ} {c : UInt8} (hc : c ≠ ch '-' ∧ ¬ (48 ≤ c ∧ c ≤ 57)) :
    c ∉ stdToString n := by
  intro h
  rcases mem_stdToString h with he | he
  · exact hc.1 he
  · exact hc.2 he

theorem notMem_level (l : LogLevel) : TAB ∉ l.toString ∧ LF ∉ l.toString := by
  cases l <;> decide

/-- **The line of an event is read back**, whatever its text is. -/
theorem readEntry_record (hdate : TAB ∉ date) (h : event.Plain) :
    readEntry (record date event) = some (entry date event) := by
  have hbracket {s : Bytes} (hs : TAB ∉ s) : TAB ∉ str "[" ++ s ++ str "]" := by
    have h1 : TAB ∉ str "[" ∧ TAB ∉ str "]" := by decide
    simp [hs, h1]
  have hplace : TAB ∉ event.file ++ ch ':' :: stdToString event.line := by
    have hcolon : TAB ≠ ch ':' := by decide
    simp [h.file.1, hcolon, @notMem_stdToString event.line TAB (by decide)]
  rw [readEntry, record,
    List.splitOn_append_cons_self_of_not_mem hdate,
    List.splitOn_append_cons_self_of_not_mem notMem_digits.1,
    List.splitOn_append_cons_self_of_not_mem notMem_digits.1,
    List.splitOn_append_cons_self_of_not_mem (hbracket (notMem_level _).1),
    List.splitOn_append_cons_self_of_not_mem (hbracket h.loggerName.1),
    List.splitOn_append_cons_self_of_not_mem hplace]
  simp only [digitsValue_decimal, unbracket_eq, LogLevel.fromString_toString,
    cutPlace_eq _ (@notMem_stdToString event.line (ch ':') (by decide)), atoi_stdToString h.line,
    List.intercalate_splitOn, entry]

theorem record_notMem (hdate : LF ∉ date) (h : event.Plain) (hc : LF ∉ event.content) :
    LF ∉ record date event := by
  have hwords : LF ≠ TAB ∧ LF ≠ ch ':' ∧ LF ∉ str "[" ∧ LF ∉ str "]" := by decide
  obtain ⟨h1, h2, h3, h4⟩ := hwords
  simp only [record, List.mem_append, List.mem_cons, not_or]
  simp [hdate, h.file.2, h.loggerName.2, hc, h1, h2, h3, h4, notMem_digits.2,
    (notMem_level event.level).2, @notMem_stdToString event.line LF (by decide)]

end

/-! ## What the server logs -/

/-- The fixed texts, as they stand in the source. -/
def fixedTexts : List Bytes :=
  [str "accept success!",
    str "the number of file descriptors reaches the upper limit, close the client connection",
    str "socket success", str "bind success", str "listen success", str "InitServer success..",
    str "GetThreadPool", str "ThreadRoutine", str "HandlerTask", str "method error",
    str "SendHttpRespone"]

/-- The texts of the events of the server: the fixed ones, and what
    `RecvHttpRequestLine` has stored of a line that it has got. -/
inductive Logged : Bytes → Prop
  | fixed {text} : text ∈ fixedTexts → Logged text
  | requestLine {ep : EndPoint} {s : RecvSide} : ep.req.requestLine = [] →
      0 < (Util.reaLine s ep.req.requestLine).1 →
      Logged (ep.recvHttpRequestLine s).2.1.req.requestLine

/-- **Nothing that is logged has a line end in it**, whatever a client sends. -/
theorem Logged.notMem {text : Bytes} (h : Logged text) : LF ∉ text := by
  cases h with
  | fixed hm =>
    have hall : ∀ text ∈ fixedTexts, LF ∉ text := by decide +kernel
    exact hall _ hm
  | @requestLine ep s hline hpos =>
    rw [hline] at hpos
    rcases Util.reaLine_cases s with ⟨l, t, cs, hd⟩ | ⟨l, t, cs, r, hf⟩
    · have hfit : Util.Fits l := by
        rw [hd.eq] at hpos
        exact hpos
      rw [EndPoint.recvHttpRequestLine_fits hd hfit ep hline]
      show LF ∉ EndPoint.storedLine l
      rw [EndPoint.storedLine_eq_take hfit]
      exact fun hm => hd.lf (List.mem_of_mem_take hm)
    · obtain ⟨n, hn, he⟩ := hf.eq
      rw [he] at hpos
      exact absurd hn (not_le.2 hpos)

/-- **The records of the server are read back**: one entry for each event from the
    level `DEBUG` on, in order, and no other. -/
theorem readLog_logText {clock : FormatItem.Clock} {date : ℕ → Bytes}
    (hclock : ∀ time, clock.strftime DATE time = some (date time))
    (hdate : ∀ time, TAB ∉ date time ∧ LF ∉ date time) {events : List LogEvent}
    (hplain : ∀ event ∈ events, event.Plain) (hlogged : ∀ event ∈ events, Logged event.content) :
    readLog (logText clock events) =
      (events.filter fun event => LogLevel.DEBUG ≤ event.level).map fun event =>
        some (entry (date event.time) event) := by
  set due := events.filter fun event => LogLevel.DEBUG ≤ event.level with hdue
  have hmem {event : LogEvent} (hm : event ∈ due) : event ∈ events := (List.mem_filter.1 hm).1
  have hlines : logText clock events =
      (due.map fun event => record (date event.time) event).flatMap (· ++ [LF]) := by
    rw [hdue]
    clear hplain hlogged hmem hdue due
    induction events with
    | nil => rfl
    | cons event events ih =>
      rw [logText, List.flatMap_cons, ← logText, ih, written_eq (hclock _)]
      by_cases hl : LogLevel.DEBUG ≤ event.level <;> simp [hl]
  rw [hlines, readLog_lines, List.map_map]
  · refine List.map_congr_left fun event hm => ?_
    exact readEntry_record (hdate _).1 (hplain _ (hmem hm))
  · intro l hl
    obtain ⟨event, hm, rfl⟩ := List.mem_map.1 hl
    exact record_notMem (hdate _).2 (hplain _ (hmem hm)) (hlogged _ (hmem hm)).notMem

/-- A first line with a tab and a CR in the middle of what looks like a record. -/
def forged : RecvSide := arrived (str "GET /\t[FATAL]\t[root]\rhacked\n") true

/-- What is logged of it. -/
def forgedEvent : LogEvent where
  file := str "protocal.cc"
  line := 73
  elapse := 0
  threadId := 7
  fiberId := 0
  time := 0
  content := ((EndPoint.new 4 ⟨false, 0, 0⟩).recvHttpRequestLine forged).2.1.req.requestLine
  loggerName := str "root"
  level := .INFO

theorem readLog_logText_forged :
    readLog (logText ⟨fun _ _ => some (str "1970-01-01 00:00:00"), []⟩
      [forgedEvent, { forgedEvent with level := .UNKOWN }]) =
      [some { date := str "1970-01-01 00:00:00", threadId := 7, fiberId := 0, level := .INFO,
              loggerName := str "root", file := str "protocal.cc", line := 73,
              content := str "GET /\t[FATAL]\t[root]" }] := by
  have hlogged : Logged forgedEvent.content := .requestLine rfl (by decide +kernel)
  have hplain : forgedEvent.Plain := ⟨by decide +kernel, by decide +kernel, by decide⟩
  refine (@readLog_logText _ (fun _ => str "1970-01-01 00:00:00") (fun _ => rfl)
    (fun _ => by decide +kernel) _ ?_ ?_).trans ?_
  · intro event hm
    rcases List.mem_pair.1 hm with rfl | rfl
    · exact hplain
    · exact ⟨hplain.file, hplain.loggerName, hplain.line⟩
  · intro event hm
    rcases List.mem_pair.1 hm with rfl | rfl <;> exact hlogged
  · decide +kernel

end MyHttpServer
