/-
  `main` of test_cgi.cc, behind `GetParameter`: it cuts the parameter
  `x=A&y=B` into its two values and writes their sum, difference, product and
  remainder.

  The operations on `int` fail where C++ leaves them undefined: when the result
  is no `int`, and when the divisor is `0`.  A program that fails is stopped here,
  with nothing written, as `std::cout` is not flushed before the end.  (Behind an
  overflow a compiled program may also go on, with a number that has wrapped.)
-/
import MyHttpServer.Model.Exchange

namespace MyHttpServer

/-! ## Arithmetic on `int` -/

/-- Why an operation on `int` has no result. -/
inductive ArithFault where
  | overflow
  | divByZero
  deriving DecidableEq

/-- The numbers that are an `int`. -/
def IsInt (n : ℤ) : Prop := -2 ^ 31 ≤ n ∧ n < 2 ^ 31

instance (n : ℤ) : Decidable (IsInt n) := inferInstanceAs (Decidable (_ ∧ _))

/-- The result `n` of an operation on `int`. -/
def checked (n : ℤ) : Except ArithFault ℤ := if IsInt n then .ok n else .error .overflow

/-- `a + b` -/
def intAdd (a b : ℤ) : Except ArithFault ℤ := checked (a + b)

/-- `a - b` -/
def intSub (a b : ℤ) : Except ArithFault ℤ := checked (a - b)

/-- `a * b` -/
def intMul (a b : ℤ) : Except ArithFault ℤ := checked (a * b)

/-- `a % b`, which is undefined where the quotient is no `int`. -/
def intRem (a b : ℤ) : Except ArithFault ℤ := do
  if b = 0 then .error .divByZero
  else
    let _quotient ← checked (a.tdiv b)
    .ok (a.tmod b)

namespace TestCgi

/-- `CutString(str, strsub1, strsub2, sep)`, where the position is a `size_t`. -/
def cutString (str strsub1 strsub2 sep : Bytes) : Bytes × Bytes :=
  match find sep str with
  | some pos => (str.take pos, str.drop (pos + sep.length))
  | none => (strsub1, strsub2)

/-- The strings `value1` and `value2`. -/
def values (parameter : Bytes) : Bytes × Bytes :=
  let (strsub1, strsub2) := cutString parameter [] [] (str "&")
  let (_name1, value1) := cutString strsub1 [] [] (str "=")
  let (_name2, value2) := cutString strsub2 [] [] (str "=")
  (value1, value2)

/-- One of the four headings, for the operation `eval` written as `op`. -/
def heading (value1 value2 op : Bytes) (eval : ℤ → ℤ → Except ArithFault ℤ) :
    Except ArithFault Bytes := do
  let n ← eval (atoi value1) (atoi value2)
  .ok (str "<h1>" ++ value1 ++ op ++ value2 ++ str "=" ++ stdToString n ++ str "</h1>")

/-- What is written for `parameter`. -/
def headings (parameter : Bytes) : Except ArithFault Bytes := do
  let (value1, value2) := values parameter
  let sum ← heading value1 value2 (str "+") intAdd
  let difference ← heading value1 value2 (str "-") intSub
  let product ← heading value1 value2 (str "*") intMul
  let remainder ← heading value1 value2 (str "%") intRem
  .ok (sum ++ difference ++ product ++ remainder)

/-- `main()`.  Its result is what `parameter` holds in the end, unless it is
    stopped. -/
def main (env : List Bytes) : Interactive UInt8 (Option Bytes) :=
  getParameter env fun parameter =>
    match headings parameter with
    | .ok out => respond (fun _ => out) parameter
    | .error _ => .exit none

end TestCgi

end MyHttpServer
