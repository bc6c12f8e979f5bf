/-
  `CgiProcess` behind `fork`, for a POST: what the parent and its child do with
  the two pipes between them.

  The parent writes the whole body into the one pipe, reads the other until its
  end, and waits for the child.  A pipe holds a given number of bytes.  `write`
  puts in some of what it is given, as far as there is room, and waits if there
  is none; it fails when the child is gone (`SIGPIPE` is ignored).  `read` takes
  what is there, as far as it is asked for, waits if there is nothing, and
  reports the end when the child is gone.  `close(input[1])` comes behind
  `waitpid`, so that the child never comes to the end of its input.

  `sum` is an `int`: the body is shorter than 2^31 bytes, as is every count that
  `write` returns.

  `taken` and `given` are a record of what the child has read and written, which
  neither of the two looks at.
-/
import MyHttpServer.Lib.Interactive
import MyHttpServer.Lib.System
import MyHttpServer.Model.Protocal

namespace MyHttpServer

/-- Where the parent is in `CgiProcess`. -/
inductive ParentPc where
  /-- `while((size = write(input[1], start + sum, body.size() - sum)) > 0)` -/
  | writing (sum : ℕ)
  /-- `while(read(output[0], &ch, 1) > 0)` -/
  | reading
  /-- `waitpid(pid, &status, 0)` -/
  | waiting
  | done
  deriving DecidableEq

/-- The state of the exchange; the child's descriptors 0 and 1 are its ends of
    the two pipes. -/
structure Exchange (α : Type) where
  parent : ParentPc
  child : Interactive UInt8 α
  /-- in the pipe `input` -/
  input : Bytes
  /-- in the pipe `output` -/
  output : Bytes
  /-- `m_response_body` -/
  responseBody : Bytes
  taken : Bytes
  given : Bytes

/-- What an exchange depends on. -/
structure CgiJob (α : Type) where
  /-- `m_request_body` -/
  body : Bytes
  /-- `m_response_body` before the call -/
  responseBody : Bytes
  child : Interactive UInt8 α
  /-- how much the pipe `input` holds -/
  inputSize : ℕ
  /-- how much the pipe `output` holds -/
  outputSize : ℕ
  input_pos : 0 < inputSize
  output_pos : 0 < outputSize

namespace CgiJob
variable {α : Type} (j : CgiJob α)

def start : Exchange α where
  parent := .writing 0
  child := j.child
  input := []
  output := []
  responseBody := j.responseBody
  taken := []
  given := []

/-- One step of the parent or of the child. -/
inductive Step : Exchange α → Exchange α → Prop
  -- CgiProcess
  | write {s sum k} : s.parent = .writing sum → ¬ s.child.Exited → 0 < k →
      k ≤ j.body.length - sum → s.input.length + k ≤ j.inputSize →
      Step s { s with parent := .writing (sum + k), input := s.input ++ (j.body.drop sum).take k }
  | write_zero {s sum} : s.parent = .writing sum → j.body.length - sum = 0 →
      Step s { s with parent := .reading }
  | write_error {s sum} : s.parent = .writing sum → s.child.Exited →
      Step s { s with parent := .reading }
  | read {s ch output} : s.parent = .reading → s.output = ch :: output →
      Step s { s with output, responseBody := s.responseBody ++ [ch] }
  | read_end {s} : s.parent = .reading → s.output = [] → s.child.Exited →
      Step s { s with parent := .waiting }
  | waitpid {s} : s.parent = .waiting → s.child.Exited → Step s { s with parent := .done }
  -- the child
  | child_read {s n next} : s.child = .read n next → s.input ≠ [] →
      Step s { s with
        child := next (s.input.take (n + 1))
        input := s.input.drop (n + 1)
        taken := s.taken ++ s.input.take (n + 1) }
  | child_write {s b bs next} : s.child = .write (b :: bs) next →
      s.output.length < j.outputSize →
      Step s { s with
        child := .write bs next, output := s.output ++ [b], given := s.given ++ [b] }
  | child_written {s next} : s.child = .write [] next → Step s { s with child := next }

/-- The runs of the exchange. -/
def system : System (Exchange α) where
  init s := s = j.start
  step := j.Step

end CgiJob

/-- Both have finished. -/
def Exchange.Finished {α : Type} (s : Exchange α) : Prop := s.parent = .done ∧ s.child.Exited

/-! ## `test_cgi` -/

/-- `getenv(name)`: what follows `name=` in the first string that begins so. -/
def getenv (env : List Bytes) (name : Bytes) : Option Bytes :=
  (env.find? (name ++ str "=").isPrefixOf).map (·.drop (name.length + 1))

/-- How often `while(length--)` goes round: a negative `int` wraps around. -/
def rounds (length : ℤ) : ℕ := (length % 2 ^ 32).toNat

/-- A program that begins with `GetParameter(parameter)` of test_cgi.cc and goes
    on with `k parameter`.  Its result is what `parameter` holds in the end;
    there is none if `GetParameter` is stopped by a variable that is missing. -/
def getParameter (env : List Bytes) (k : Bytes → Interactive UInt8 (Option Bytes)) :
    Interactive UInt8 (Option Bytes) :=
  match getenv env (str "METHOD") with
  | none => .exit none
  | some method =>
    if method = GET then
      match getenv env (str "PARAMETER") with
      | none => .exit none
      | some parameter => k parameter
    else if method = POST then
      match getenv env CONTENT_LENGTH with
      | none => .exit none
      | some length => Interactive.readN k (rounds (atoi length)) []
    else k []

/-- The environment that `execl` copies.  `putenv` keeps pointers.  `method_env`
    is still alive; the other string is local to a block that has been left, and
    its memory has been given back.  `found` says what is there now, where the
    given text was.  Variables that the server was started with do not matter:
    `putenv` replaces those of the same name. -/
def EndPoint.execEnv (ep : EndPoint) (found : Bytes → Bytes) : List Bytes :=
  match ep.cgiInput.env with
  | [] => []
  | method :: released => method :: released.map found

/-- What the program does with the parameter: it writes `out parameter` and exits. -/
def respond (out : Bytes → Bytes) (parameter : Bytes) : Interactive UInt8 (Option Bytes) :=
  .write (out parameter) (.exit (some parameter))

/-- A program like that of test_cgi.cc: it begins with `GetParameter`. -/
def testCgi (env : List Bytes) (out : Bytes → Bytes) : Interactive UInt8 (Option Bytes) :=
  getParameter env (respond out)

/-- The exchange of `CgiProcess` with the program `child`, through pipes that
    hold `inputSize` and `outputSize` bytes. -/
def EndPoint.cgiJob {α : Type} (ep : EndPoint) (child : Interactive UInt8 α)
    {inputSize outputSize : ℕ} (hin : 0 < inputSize) (hout : 0 < outputSize) : CgiJob α where
  body := ep.req.requestBody
  responseBody := ep.resp.responseBody
  child := child
  inputSize := inputSize
  outputSize := outputSize
  input_pos := hin
  output_pos := hout

end MyHttpServer
