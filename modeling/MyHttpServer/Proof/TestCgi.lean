/-
  The arithmetic of test_cgi.cc on any parameter.

  Nothing is checked of the two numbers, which the client chooses, and a part
  that is missing counts as `0`: without a `'&'` the program divides by zero.

  * `values_eq`: the two values are cut out at the first `'&'` and, in each part,
    behind the first `'='`;
  * `calculable_iff`: the pairs of numbers on which all four operations are
    defined;
  * `main_completes_iff`: the parameters with which the program comes to its end.
-/
import Mathlib.Data.List.TakeWhile
import MyHttpServer.Lib.Fallible
import MyHttpServer.Model.TestCgi

namespace MyHttpServer

/-! ## Operations that are defined -/

theorem checked_eq_ok {n r : ℤ} : checked n = .ok r ↔ IsInt n ∧ n = r := by
  unfold checked
  by_cases h : IsInt n <;> simp [h]

theorem intRem_eq_ok {a b r : ℤ} :
    intRem a b = .ok r ↔ b ≠ 0 ∧ IsInt (a.tdiv b) ∧ a.tmod b = r := by
  unfold intRem
  by_cases hb : b = 0
  · simp [hb]
  · simp [hb, Except.bind_eq_ok, checked_eq_ok]

theorem atoi_isInt (s : Bytes) : IsInt (atoi s) := toInt_range _

/-- All four operations are defined on `a` and `b`. -/
structure Calculable (a b : ℤ) : Prop where
  divisor : b ≠ 0
  above : a + |b| < 2 ^ 31
  below : -2 ^ 31 ≤ a - |b|
  product : |a| * |b| < 2 ^ 31 ∨ a * b = -2 ^ 31

/-- The quotient is an `int` if the product is one. -/
theorem isInt_tdiv {a b : ℤ} (ha : IsInt a) (hb : b ≠ 0) (hab : IsInt (a * b)) :
    IsInt (a.tdiv b) := by
  obtain ⟨h1, h2⟩ := ha
  have hle : (a.tdiv b).natAbs ≤ a.natAbs := Int.natAbs_tdiv_le_natAbs a b
  by_cases hm : a = -2 ^ 31
  · -- the smallest `int` leaves no room for another factor than 1
    have hone : b = 1 := by
      obtain ⟨h3, h4⟩ := hab
      rw [hm] at h3 h4
      omega
    rw [hone, Int.tdiv_one]
    exact ⟨h1, h2⟩
  · constructor <;> omega

/-- **When all four operations are defined.** -/
theorem calculable_iff {a b : ℤ} (ha : IsInt a) :
    (IsInt (a + b) ∧ IsInt (a - b) ∧ IsInt (a * b) ∧ b ≠ 0 ∧ IsInt (a.tdiv b)) ↔
      Calculable a b := by
  have hmul : |a| * |b| = |a * b| := (abs_mul a b).symm
  constructor
  · rintro ⟨⟨h1, h2⟩, ⟨h3, h4⟩, ⟨h5, h6⟩, hb, -⟩
    refine ⟨hb, ?_, ?_, ?_⟩
    · rcases abs_cases b with ⟨h, -⟩ | ⟨h, -⟩ <;> omega
    · rcases abs_cases b with ⟨h, -⟩ | ⟨h, -⟩ <;> omega
    · rw [hmul]
      rcases abs_cases (a * b) with ⟨h, -⟩ | ⟨h, -⟩ <;> omega
  · rintro ⟨hb, h1, h2, h3⟩
    rw [hmul] at h3
    have hprod : IsInt (a * b) := by
      unfold IsInt
      rcases abs_cases (a * b) with ⟨h, hs⟩ | ⟨h, hs⟩ <;> omega
    have hadd : IsInt (a + b) ∧ IsInt (a - b) := by
      unfold IsInt
      rcases abs_cases b with ⟨h, hs⟩ | ⟨h, hs⟩ <;> omega
    exact ⟨hadd.1, hadd.2, hprod, hb, isInt_tdiv ha hb hprod⟩

namespace TestCgi

/-! ## The two values -/

/-- `'&'` -/
def AMPERSAND : UInt8 := 38
/-- `'='` -/
def EQUALS : UInt8 := 61

theorem dropWhile_ne_eq_nil {c : UInt8} {s : Bytes} (h : c ∉ s) : s.dropWhile (· ≠ c) = [] := by
  rw [List.dropWhile_eq_nil_iff]
  intro b hb
  exact decide_eq_true fun he => h (he ▸ hb)

/-- What is in front of the first `c`, and what is behind it. -/
theorem cutString_byte (c : UInt8) (s : Bytes) :
    cutString s [] [] [c] =
      (if c ∈ s then s.takeWhile (· ≠ c) else [], (s.dropWhile (· ≠ c)).tail) := by
  rw [cutString, find_byte]
  by_cases h : c ∈ s
  · simp only [if_pos h]
    refine Prod.ext ?_ ?_
    · exact (List.prefix_iff_eq_take.1 (List.takeWhile_prefix _)).symm
    · show s.drop ((s.takeWhile (· ≠ c)).length + 1) = _
      rw [← drop_length_takeWhile, List.tail_drop]
  · simp only [if_neg h, dropWhile_ne_eq_nil h, List.tail_nil]

/-- The value in a part of the parameter: what follows its first `'='`. -/
def valueIn (part : Bytes) : Bytes := (part.dropWhile (· ≠ EQUALS)).tail

theorem values_eq (s : Bytes) :
    values s = (valueIn (if AMPERSAND ∈ s then s.takeWhile (· ≠ AMPERSAND) else []),
      valueIn (s.dropWhile (· ≠ AMPERSAND)).tail) := by
  have hamp : str "&" = [AMPERSAND] := by decide
  have heq : str "=" = [EQUALS] := by decide
  rw [values, hamp, heq]
  simp only [cutString_byte, valueIn]

/-- The number in front of the first `'&'`. -/
def first (s : Bytes) : ℤ := atoi (valueIn (s.takeWhile (· ≠ AMPERSAND)))

/-- The number behind it; `0` if there is none. -/
def second (s : Bytes) : ℤ := atoi (valueIn (s.dropWhile (· ≠ AMPERSAND)).tail)

/-- Without a `'&'` the divisor is `0`. -/
theorem second_eq_zero {s : Bytes} (h : AMPERSAND ∉ s) : second s = 0 := by
  rw [second, dropWhile_ne_eq_nil h]
  decide +kernel

/-! ## The headings -/

theorem heading_ok_iff {value1 value2 op : Bytes} {eval : ℤ → ℤ → Except ArithFault ℤ} :
    (∃ out, heading value1 value2 op eval = .ok out) ↔
      ∃ n, eval (atoi value1) (atoi value2) = .ok n := by
  simp only [heading, Except.bind_eq_ok]
  exact ⟨fun ⟨_, n, hn, _⟩ => ⟨n, hn⟩, fun ⟨n, hn⟩ => ⟨_, n, hn, rfl⟩⟩

/-- The headings are written if all four operations are defined. -/
theorem headings_ok_iff (s : Bytes) :
    (∃ out, headings s = .ok out) ↔
      Calculable (atoi (values s).1) (atoi (values s).2) := by
  rw [← calculable_iff (atoi_isInt _)]
  have hbind : (∃ out, headings s = .ok out) ↔
      (∃ h, heading (values s).1 (values s).2 (str "+") intAdd = .ok h) ∧
      (∃ h, heading (values s).1 (values s).2 (str "-") intSub = .ok h) ∧
      (∃ h, heading (values s).1 (values s).2 (str "*") intMul = .ok h) ∧
      ∃ h, heading (values s).1 (values s).2 (str "%") intRem = .ok h := by
    simp only [headings, Except.bind_eq_ok]
    constructor
    · rintro ⟨out, h1, e1, h2, e2, h3, e3, h4, e4, -⟩
      exact ⟨⟨h1, e1⟩, ⟨h2, e2⟩, ⟨h3, e3⟩, ⟨h4, e4⟩⟩
    · rintro ⟨⟨h1, e1⟩, ⟨h2, e2⟩, ⟨h3, e3⟩, ⟨h4, e4⟩⟩
      exact ⟨_, h1, e1, h2, e2, h3, e3, h4, e4, rfl⟩
  rw [hbind]
  simp only [heading_ok_iff, intAdd, intSub, intMul, checked_eq_ok, intRem_eq_ok,
    exists_and_left, exists_eq', and_true]

/-- **The parameters of a GET with which the program comes to its end**: the
    second number is not `0`, and the two are small enough. -/
theorem main_completes_iff {env : List Bytes} {s : Bytes}
    (hm : getenv env (str "METHOD") = some GET) (hp : getenv env (str "PARAMETER") = some s) :
    (∃ out, main env = .write out (.exit (some s))) ↔ Calculable (first s) (second s) := by
  have hcompletes : (∃ out, main env = .write out (.exit (some s))) ↔
      ∃ out, headings s = .ok out := by
    simp only [main, getParameter, hm, if_true, hp]
    cases headings s with
    | ok out => simp [respond]
    | error e => simp
  rw [hcompletes, headings_ok_iff, values_eq]
  by_cases h : AMPERSAND ∈ s
  · rw [if_pos h]
    rfl
  · have hz := second_eq_zero h
    constructor
    · exact fun hc => absurd hz hc.divisor
    · exact fun hc => absurd hz hc.divisor

/-- The environment of a GET. -/
def getEnv (s : Bytes) : List Bytes := [str "METHOD=GET", str "PARAMETER=" ++ s]

theorem main_completes_iff_form :
    (∃ out, main (getEnv (str "x=6&y=4")) = .write out (.exit (some (str "x=6&y=4")))) ↔
      Calculable (first (str "x=6&y=4")) (second (str "x=6&y=4")) :=
  main_completes_iff (by decide +kernel) (by decide +kernel)

/-- A divisor of `0` stops the program. -/
theorem main_divides_by_zero :
    let s := str "x=1&y=0"
    getenv (getEnv s) (str "METHOD") = some GET ∧
      getenv (getEnv s) (str "PARAMETER") = some s ∧ headings s = .error .divByZero ∧
      ¬ ∃ out, main (getEnv s) = .write out (.exit (some s)) := by
  intro s
  have hm : getenv (getEnv s) (str "METHOD") = some GET := by decide +kernel
  have hp : getenv (getEnv s) (str "PARAMETER") = some s := by decide +kernel
  have hz : headings s = .error .divByZero := by decide +kernel
  refine ⟨hm, hp, hz, ?_⟩
  simp only [main, getParameter, hm, if_true, hp, hz]
  simp

end TestCgi

end MyHttpServer
