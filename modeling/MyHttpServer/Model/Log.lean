/-
  log.h and log.cc, second part: loggers, their appenders, and the manager.

  Loggers and appenders are shared objects: they are named by the order in which
  they are made, and live as long as something points to them.  A formatter is
  not changed once it is made, so that a pointer to one is that formatter or
  null.  A `log` call gives what each appender is handed, in order; the virtual
  `log` of the two kinds of appenders differs only in the stream it writes to.
-/
import MyHttpServer.Lib.Fallible
import MyHttpServer.Model.LogFormatter

namespace MyHttpServer

/-! ## Appenders -/

/-- What a log call can do wrong. -/
inductive LogFault
  /-- `m_formatter` is null -/
  | nullFormatter
  /-- no such object -/
  | noObject
  deriving DecidableEq

structure LogAppender where
  level : LogLevel := .DEBUG
  formatter : Option LogFormatter := none

/-- `if(level >= m_level) stream << m_formatter->format(logger, level, event);` -/
def LogAppender.log (a : LogAppender) (clock : FormatItem.Clock) (level : LogLevel)
    (event : LogEvent) : Except LogFault (Option Bytes) :=
  if a.level ≤ level then
    match a.formatter with
    | some f => .ok (some (f.format clock level event))
    | none => .error .nullFormatter
  else .ok none

/-! ### The appender of a file -/

/-- A `std::ofstream`; what it buffers counts as written. -/
structure Ofstream where
  isOpen : Bool := false
  failbit : Bool := false
  deriving DecidableEq

/-- A file: what was in it, and the texts that have been written to it since. -/
structure LogFile where
  before : Bytes
  records : List Bytes
  deriving DecidableEq

namespace Ofstream

/-- `close()` -/
def close (s : Ofstream) : Ofstream :=
  if s.isOpen then { s with isOpen := false } else { s with failbit := true }

/-- `open(name)`, for a file that can be opened: it is truncated. -/
def openFile (s : Ofstream) (file : LogFile) : Ofstream × LogFile :=
  if s.isOpen then ({ s with failbit := true }, file)
  else ({ isOpen := true, failbit := false }, { before := [], records := [] })

/-- `stream << text` -/
def write (s : Ofstream) (file : LogFile) (text : Bytes) : Ofstream × LogFile :=
  if s.failbit then (s, file)
  else if s.isOpen then (s, { file with records := file.records ++ [text] })
  else ({ s with failbit := true }, file)

end Ofstream

structure FileLogAppender extends LogAppender where
  filestream : Ofstream := {}

namespace FileLogAppender

/-- `log(logger, level, event)`, with the file behind the stream. -/
def log (a : FileLogAppender) (file : LogFile) (clock : FormatItem.Clock) (level : LogLevel)
    (event : LogEvent) : Except LogFault (FileLogAppender × LogFile) := do
  match ← a.toLogAppender.log clock level event with
  | none => return (a, file)
  | some text =>
    let (filestream, file) := a.filestream.write file text
    return ({ a with filestream }, file)

/-- `reopen()` -/
def reopen (a : FileLogAppender) (file : LogFile) : Bool × FileLogAppender × LogFile :=
  let filestream := if ! a.filestream.failbit then a.filestream.close else a.filestream
  let (filestream, file) := filestream.openFile file
  (! filestream.failbit, { a with filestream }, file)

end FileLogAppender

/-- A call of a `FileLogAppender`. -/
inductive FileCall
  | log (clock : FormatItem.Clock) (level : LogLevel) (event : LogEvent)
  | reopen

namespace FileLogAppender

/-- What a call does. -/
def perform (a : FileLogAppender) (file : LogFile) :
    FileCall → Except LogFault (FileLogAppender × LogFile)
  | .log clock level event => a.log file clock level event
  | .reopen => .ok (a.reopen file).2

def performAll (a : FileLogAppender) (file : LogFile) :
    List FileCall → Except LogFault (FileLogAppender × LogFile)
  | [] => .ok (a, file)
  | c :: calls => do
    let (a, file) ← a.perform file c
    a.performAll file calls

end FileLogAppender

/-! ## Loggers -/

abbrev LoggerPtr := ℕ
abbrev AppenderPtr := ℕ

structure Logger where
  name : Bytes
  level : LogLevel := .DEBUG
  appenders : List AppenderPtr := []
  formatter : Option LogFormatter
  root : Option LoggerPtr := none

/-- `Logger(name)` -/
def Logger.new (name : Bytes) : Logger where
  name
  formatter := some (.new (str "%d\x7b%Y-%m-%d %H:%M:%S\x7d%T%t%T%F%T[%p]%T[%c]%T%f:%l%T%m%n"))

/-- The objects that have been made, and the members of the `LoggerManager`. -/
structure LogState where
  loggers : List Logger
  appenders : List LogAppender
  /-- `m_loggers`: the last entry for a name counts -/
  named : List (Bytes × LoggerPtr)
  root : LoggerPtr

namespace LogState

def modifyLogger (s : LogState) (L : LoggerPtr) (f : Logger → Logger) : LogState :=
  { s with loggers := s.loggers.modify L f }

def modifyAppender (s : LogState) (A : AppenderPtr) (f : LogAppender → LogAppender) : LogState :=
  { s with appenders := s.appenders.modify A f }

/-- A new appender, of either kind. -/
def newAppender (s : LogState) : LogState := { s with appenders := s.appenders ++ [{}] }

/-! ### Members of `LogAppender` -/

/-- `LogAppender::setLevel(level)` -/
def setAppenderLevel (s : LogState) (A : AppenderPtr) (level : LogLevel) : LogState :=
  s.modifyAppender A fun a => { a with level }

/-- `LogAppender::setFormatter(format)` -/
def setAppenderFormatter (s : LogState) (A : AppenderPtr) (formatter : Option LogFormatter) :
    LogState :=
  s.modifyAppender A fun a => { a with formatter }

/-! ### Members of `Logger` -/

def setLevel (s : LogState) (L : LoggerPtr) (level : LogLevel) : LogState :=
  s.modifyLogger L fun l => { l with level }

/-- `setFormatter(LogFormatter::ptr val)` -/
def setFormatterPtr (s : LogState) (L : LoggerPtr) (formatter : Option LogFormatter) : LogState :=
  s.modifyLogger L fun l => { l with formatter }

/-- `setFormatter(const string& val)` -/
def setFormatter (s : LogState) (L : LoggerPtr) (val : Bytes) : LogState :=
  let new_val := LogFormatter.new val
  if new_val.isError then s else s.setFormatterPtr L (some new_val)

def addAppender (s : LogState) (L : LoggerPtr) (A : AppenderPtr) : LogState :=
  let s := if (s.appenders[A]?.bind (·.formatter)).isNone then
      s.setAppenderFormatter A (s.loggers[L]?.bind (·.formatter))
    else s
  s.modifyLogger L fun l => { l with appenders := l.appenders ++ [A] }

/-- The first entry of the list is erased. -/
def delAppender (s : LogState) (L : LoggerPtr) (A : AppenderPtr) : LogState :=
  s.modifyLogger L fun l => { l with appenders := l.appenders.erase A }

def clearAppenders (s : LogState) (L : LoggerPtr) : LogState :=
  s.modifyLogger L fun l => { l with appenders := [] }

section
variable (s : LogState) (clock : FormatItem.Clock) (level : LogLevel) (event : LogEvent)

/-- What the appender is handed: nothing or one text. -/
def deliver (A : AppenderPtr) : Except LogFault (List (AppenderPtr × Bytes)) :=
  match s.appenders[A]? with
  | none => .error .noObject
  | some a => do
    match ← a.log clock level event with
    | none => return []
    | some text => return [(A, text)]

/-- `for(auto& i : m_appenders) i->log(self, level, event);` -/
def deliverAll : List AppenderPtr → Except LogFault (List (AppenderPtr × Bytes))
  | [] => .ok []
  | A :: As => do
    let now ← deliver s clock level event A
    let later ← deliverAll As
    return now ++ later

/-- `log(level, event)`.  It calls itself on `m_root`; `none` says that the calls
    go deeper than the bound. -/
def log : ℕ → LoggerPtr → Option (Except LogFault (List (AppenderPtr × Bytes)))
  | 0, _ => none
  | n + 1, L =>
    match s.loggers[L]? with
    | none => some (.error .noObject)
    | some l =>
      if l.level ≤ level then
        if l.appenders ≠ [] then some (deliverAll s clock level event l.appenders)
        else match l.root with
          | some R => log n R
          | none => some (.ok [])
      else some (.ok [])

end

/-! ### Members of `LoggerManager` -/

/-- `LoggerManager()` -/
def new : LogState :=
  let s : LogState := { loggers := [.new (str "root")], appenders := [], named := [], root := 0 }
  s.newAppender.addAppender 0 0

/-- `m_loggers.find(name)`; `none` is `m_loggers.end()`. -/
def find (s : LogState) (name : Bytes) : Option LoggerPtr := s.named.reverse.lookup name

def getLogger (s : LogState) (name : Bytes) : LoggerPtr × LogState :=
  let it := s.find name
  -- compared with another find, not with end()
  if it ≠ s.find name then (it.getD s.root, s)
  else
    let logger : Logger := { Logger.new name with root := some s.root }
    let p := s.loggers.length
    (p, { s with loggers := s.loggers ++ [logger], named := s.named ++ [(name, p)] })

end LogState

/-! ## Calls from outside -/

/-- A call that configures the logging. -/
inductive LogCall
  | newAppender
  | getLogger (name : Bytes)
  | addAppender (L : LoggerPtr) (A : AppenderPtr)
  | delAppender (L : LoggerPtr) (A : AppenderPtr)
  | clearAppenders (L : LoggerPtr)
  | setLevel (L : LoggerPtr) (level : LogLevel)
  | setFormatter (L : LoggerPtr) (val : Bytes)
  | setFormatterPtr (L : LoggerPtr) (val : Option LogFormatter)
  | setAppenderLevel (A : AppenderPtr) (level : LogLevel)
  | setAppenderFormatter (A : AppenderPtr) (val : Option LogFormatter)

/-- What a call does. -/
def LogState.perform (s : LogState) : LogCall → LogState
  | .newAppender => s.newAppender
  | .getLogger name => (s.getLogger name).2
  | .addAppender L A => s.addAppender L A
  | .delAppender L A => s.delAppender L A
  | .clearAppenders L => s.clearAppenders L
  | .setLevel L level => s.setLevel L level
  | .setFormatter L val => s.setFormatter L val
  | .setFormatterPtr L val => s.setFormatterPtr L val
  | .setAppenderLevel A level => s.setAppenderLevel A level
  | .setAppenderFormatter A val => s.setAppenderFormatter A val

end MyHttpServer
