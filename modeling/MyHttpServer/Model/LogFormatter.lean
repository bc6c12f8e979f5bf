/-
  log.h and log.cc, first part: levels, events, and the formatter, whose pattern
  is compiled into a list of items.

  What `init` prints on the console about a bad pattern is left out.
-/
import MyHttpServer.Lib.WhileLoop
import MyHttpServer.Model.Cpp

namespace MyHttpServer

/-! ## Levels and events -/

/-- `LogLevel::Level` -/
inductive LogLevel
  | UNKOWN
  | DEBUG
  | INFO
  | WARN
  | ERROR
  | FATAL
  deriving DecidableEq

namespace LogLevel

/-- The value of the enumerator. -/
def val : LogLevel → ℕ
  | UNKOWN => 0
  | DEBUG => 1
  | INFO => 2
  | WARN => 3
  | ERROR => 4
  | FATAL => 5

instance : LE LogLevel := ⟨fun l m => l.val ≤ m.val⟩

instance (l m : LogLevel) : Decidable (l ≤ m) := inferInstanceAs (Decidable (l.val ≤ m.val))

/-- `LogLevel::toString(level)` -/
def toString : LogLevel → Bytes
  | UNKOWN => str "UNKOWN"
  | DEBUG => str "DEBUG"
  | INFO => str "INFO"
  | WARN => str "WARN"
  | ERROR => str "ERROR"
  | FATAL => str "FATAL"

/-- `LogLevel::fromString(str)` -/
def fromString (s : Bytes) : LogLevel :=
  if s = str "DEBUG" then DEBUG
  else if s = str "INFO" then INFO
  else if s = str "WARN" then WARN
  else if s = str "ERROR" then ERROR
  else if s = str "FATAL" then FATAL
  else UNKOWN

end LogLevel

/-- A `LogEvent`; of its logger only the name is used. -/
structure LogEvent where
  file : Bytes
  line : ℤ
  elapse : ℕ
  threadId : ℕ
  fiberId : ℕ
  time : ℕ
  content : Bytes
  loggerName : Bytes
  level : LogLevel
  deriving DecidableEq

/-! ## Items -/

/-- The subclasses of `FormatItem`, with their members. -/
inductive FormatItem
  | message
  | level
  | elapse
  | name
  | threadId
  | fiberId
  | dateTime (format : Bytes)
  | filename
  | line
  | newLine
  | string (text : Bytes)
  | tab
  deriving DecidableEq

namespace FormatItem

/-- `DataTimeFormatItem(format)` -/
def newDateTime (format : Bytes) : FormatItem :=
  .dateTime (if format = [] then str "%Y-%m-%d %H:%M:%S" else format)

/-- What `format` uses of the C library: `strftime` on the local time, if the
    result fits into 64 bytes, and else what is in the buffer. -/
structure Clock where
  strftime : Bytes → ℕ → Option Bytes
  buf : Bytes

/-- What `format` writes for an item. -/
def format (clock : Clock) (level : LogLevel) (event : LogEvent) : FormatItem → Bytes
  | .message => event.content
  | .level => level.toString
  | .elapse => decimal event.elapse
  | .name => event.loggerName
  | .threadId => decimal event.threadId
  | .fiberId => decimal event.fiberId
  | .dateTime format => (clock.strftime format event.time).getD (cStr clock.buf)
  | .filename => event.file
  | .line => stdToString event.line
  | .newLine => [LF]
  | .string text => text
  | .tab => [9]

end FormatItem

/-- The table `s_format_items`; all classes but one ignore the format. -/
def formatItems : List (Bytes × (Bytes → FormatItem)) :=
  [(str "m", fun _ => .message), (str "p", fun _ => .level), (str "r", fun _ => .elapse),
    (str "c", fun _ => .name), (str "t", fun _ => .threadId), (str "n", fun _ => .newLine),
    (str "d", fun fmt => .newDateTime fmt), (str "f", fun _ => .filename),
    (str "l", fun _ => .line), (str "T", fun _ => .tab), (str "F", fun _ => .fiberId)]

/-! ## Compiling a pattern -/

/-- `'%'` -/
def PERCENT : UInt8 := 37
/-- `'{'` -/
def LBRACE : UInt8 := 123
/-- `'}'` -/
def RBRACE : UInt8 := 125

/-- `isalpha` -/
def isAlpha (c : UInt8) : Bool := (65 ≤ c ∧ c ≤ 90) ∨ (97 ≤ c ∧ c ≤ 122)

/-- `s.substr(pos, len)` -/
def substr (s : Bytes) (pos len : ℕ) : Bytes := (s.drop pos).take len

/-- The variables of the inner loop of `init`. -/
structure ItemScan where
  n : ℕ
  fmtStatus : ℕ := 0
  fmtBegin : ℕ := 0
  str : Bytes := []
  fmt : Bytes := []
  deriving DecidableEq

/-- The body of `while(n < m_pattern.size())`, for the `'%'` at `i`. -/
def itemStep (pattern : Bytes) (i : ℕ) (s : ItemScan) : ItemScan ⊕ ItemScan :=
  match pattern[s.n]? with
  | none => .inr s
  | some c =>
    if s.fmtStatus = 0 ∧ ¬ isAlpha c ∧ c ≠ LBRACE ∧ c ≠ RBRACE then
      .inr { s with str := substr pattern (i + 1) (s.n - i - 1) }
    else if s.fmtStatus = 0 ∧ c = LBRACE then
      .inl { s with
        n := s.n + 1
        fmtStatus := 1
        fmtBegin := s.n
        str := substr pattern (i + 1) (s.n - i - 1) }
    else if s.fmtStatus = 1 ∧ c = RBRACE then
      .inr { s with
        n := s.n + 1
        fmtStatus := 0
        fmt := substr pattern (s.fmtBegin + 1) (s.n - s.fmtBegin - 1) }
    else
      .inl { s with
        n := s.n + 1
        str := if s.n + 1 = pattern.length ∧ s.str = [] then pattern.drop (i + 1) else s.str }

theorem itemStep_next {pattern : Bytes} {i : ℕ} {s t : ItemScan}
    (h : itemStep pattern i s = .inl t) : s.n < pattern.length ∧ t.n = s.n + 1 := by
  unfold itemStep at h
  split at h
  · cases h
  · rename_i c hc
    refine ⟨(List.getElem?_eq_some_iff.1 hc).1, ?_⟩
    split_ifs at h <;> cases h <;> rfl

theorem itemStep_done {pattern : Bytes} {i : ℕ} {s t : ItemScan}
    (h : itemStep pattern i s = .inr t) : s.n ≤ t.n := by
  unfold itemStep at h
  split at h
  · cases h; exact le_rfl
  · split_ifs at h <;> cases h <;> simp

def itemLoop (pattern : Bytes) (i : ℕ) : WhileLoop ItemScan ItemScan where
  step := itemStep pattern i
  variant s := pattern.length - s.n
  variant_lt h := by
    have := itemStep_next h
    omega

theorem itemLoop_le (pattern : Bytes) (i : ℕ) (s : ItemScan) :
    s.n ≤ ((itemLoop pattern i).run s).n := by
  refine WhileLoop.run_induct (L := itemLoop pattern i) (P := fun s r => s.n ≤ r.n) ?_ ?_ s
  · intro s r h
    exact itemStep_done h
  · intro s t h ih
    have := (itemStep_next h).2
    omega

/-- A `tuple<string, string, int>`: text, format and type. -/
structure PatternPart where
  str : Bytes
  fmt : Bytes
  type : ℕ
  deriving DecidableEq

/-- The variables of the outer loop of `init`. -/
structure PatternScan where
  i : ℕ := 0
  nstr : Bytes := []
  vec : List PatternPart := []
  error : Bool := false
  deriving DecidableEq

/-- `if(!nstr.empty()) vec.push_back(make_tuple(nstr, string(), 0));` -/
def pushText (vec : List PatternPart) (nstr : Bytes) : List PatternPart :=
  if nstr = [] then vec else vec ++ [⟨nstr, [], 0⟩]

/-- The body of `for(size_t i=0; i<m_pattern.size(); ++i)`. -/
def patternStep (pattern : Bytes) (s : PatternScan) : PatternScan ⊕ PatternScan :=
  match pattern[s.i]? with
  | none => .inr s
  | some c =>
    if c ≠ PERCENT then .inl { s with i := s.i + 1, nstr := s.nstr ++ [c] }
    else if pattern[s.i + 1]? = some PERCENT then
      -- the second '%' is not skipped
      .inl { s with i := s.i + 1, nstr := s.nstr ++ [PERCENT] }
    else
      let r := (itemLoop pattern s.i).run { n := s.i + 1 }
      if r.fmtStatus = 0 then
        -- i = n - 1, and then ++i
        .inl { s with
          i := r.n - 1 + 1
          nstr := []
          vec := pushText s.vec s.nstr ++ [⟨r.str, r.fmt, 1⟩] }
      else
        -- the text collected so far stays in nstr
        .inl { s with
          i := s.i + 1
          vec := s.vec ++ [⟨str "<<pattern_error>>", r.fmt, 0⟩]
          error := true }

theorem patternStep_next {pattern : Bytes} {s t : PatternScan}
    (h : patternStep pattern s = .inl t) : s.i < pattern.length ∧ s.i < t.i := by
  unfold patternStep at h
  have hle := itemLoop_le pattern s.i { n := s.i + 1 }
  split at h
  · cases h
  · rename_i c hc
    refine ⟨(List.getElem?_eq_some_iff.1 hc).1, ?_⟩
    dsimp only at h
    split_ifs at h <;> cases h
    · simp
    · simp
    · simp only at hle ⊢; omega
    · simp

def patternLoop (pattern : Bytes) : WhileLoop PatternScan PatternScan where
  step := patternStep pattern
  variant s := pattern.length - s.i
  variant_lt h := by
    have := patternStep_next h
    omega

/-! ## The formatter -/

structure LogFormatter where
  pattern : Bytes
  items : List FormatItem
  error : Bool

namespace LogFormatter

/-- What the last loop of `init` makes of a part, and whether it is an error. -/
def itemOfPart (p : PatternPart) : FormatItem × Bool :=
  if p.type = 0 then (.string p.str, false)
  else match formatItems.lookup p.str with
    | none => (.string (str "<<error_format %" ++ p.str ++ str ">>"), true)
    | some make => (make p.fmt, false)

/-- `LogFormatter(pattern)`, which calls `init()`. -/
def new (pattern : Bytes) : LogFormatter :=
  let s := (patternLoop pattern).run {}
  let vec := pushText s.vec s.nstr
  { pattern
    items := vec.map fun p => (itemOfPart p).1
    error := s.error || vec.any fun p => (itemOfPart p).2 }

def isError (f : LogFormatter) : Bool := f.error

/-- `format(logger, level, event)` -/
def format (f : LogFormatter) (clock : FormatItem.Clock) (level : LogLevel) (event : LogEvent) :
    Bytes :=
  f.items.flatMap (FormatItem.format clock level event)

end LogFormatter

end MyHttpServer
