/-
  The parts of C++ the server is written with: byte strings with the members
  of `std::string` it calls, its integer conversions, and the library
  functions `isspace`, `toupper`, `atoi` and `std::to_string` in the "C"
  locale, which the server never changes.
-/
import Mathlib.Tactic

namespace MyHttpServer

/-- A `std::string`: any bytes, `NUL` included. -/
abbrev Bytes := List UInt8

/-- A string literal (ASCII only). -/
def str (s : String) : Bytes := s.toList.map fun c => UInt8.ofNat c.toNat

def CR : UInt8 := 13
def LF : UInt8 := 10
/-- `' '` -/
def SP : UInt8 := 32
/-- `'/'` -/
def SLASH : UInt8 := 47
/-- `'?'` -/
def QUESTION : UInt8 := 63
/-- `'.'` -/
def DOT : UInt8 := 46

theorem CR_ne_LF : CR ≠ LF := by decide

/-! ## Integers -/

/-- Conversion to `int`: modulo 2^32, in two's complement. -/
@[irreducible] def toInt (n : ℤ) : ℤ := (BitVec.ofInt 32 n).toInt

/-- Conversion to `size_t`: modulo 2^64. -/
@[irreducible] def toSizeT (n : ℤ) : ℕ := (BitVec.ofInt 64 n).toNat

theorem toInt_of_lt {n : ℕ} (h : n < 2 ^ 31) : toInt n = n := by
  unfold toInt; rw [BitVec.toInt_ofInt, Int.bmod_eq_of_le] <;> omega

theorem toInt_neg {n : ℕ} (h : 2 ^ 31 ≤ n) (h' : n < 2 ^ 32) : toInt n < 0 := by
  unfold toInt
  rw [BitVec.toInt_ofInt, Int.bmod_def, Int.emod_eq_of_lt (by omega) (by omega), if_neg (by omega)]
  omega

theorem toInt_range (n : ℤ) : -2 ^ 31 ≤ toInt n ∧ toInt n < 2 ^ 31 := by
  unfold toInt
  exact ⟨BitVec.le_toInt _, BitVec.toInt_lt⟩

theorem toSizeT_of_lt {n : ℕ} (h : n < 2 ^ 64) : toSizeT n = n := by
  unfold toSizeT; rw [BitVec.toNat_ofInt]; omega

/-! ## Strings -/

/-- `std::string::npos`, as `find` reports it once converted to `int`. -/
def npos : ℤ := -1

/-- What a system call reads of `s.c_str()`: the bytes before the first `NUL`. -/
def cStr (s : Bytes) : Bytes := s.takeWhile (· ≠ 0)

/-- `s.find(symbol)`: where `symbol` first occurs in `s`. -/
def find (symbol : Bytes) : Bytes → Option ℕ
  | [] => if symbol = [] then some 0 else none
  | c :: s => if symbol.isPrefixOf (c :: s) then some 0 else (find symbol s).map (· + 1)

theorem find_byte (c : UInt8) (s : Bytes) :
    find [c] s = if c ∈ s then some (s.takeWhile (· ≠ c)).length else none := by
  induction s with
  | nil => simp [find]
  | cons b s ih =>
    by_cases hb : b = c
    · subst hb; simp [find]
    · by_cases hs : c ∈ s <;> simp [find, hb, Ne.symm hb, ih, hs]

theorem drop_length_takeWhile (p : UInt8 → Bool) (s : Bytes) :
    s.drop (s.takeWhile p).length = s.dropWhile p := by
  induction s with
  | nil => rfl
  | cons c s ih => by_cases h : p c <;> simp [h, ih]

/-- `s.rfind(".")`: where the last `'.'` of `s` is. -/
def rfindDot (s : Bytes) : Option ℕ :=
  (s.reverse.idxOf? DOT).map fun i => s.length - 1 - i

/-- `s.resize(n)`: cut, or padded with `NUL`. -/
def resize (s : Bytes) (n : ℕ) : Bytes := s.take n ++ List.replicate (n - s.length) 0

theorem resize_of_le {s : Bytes} {n : ℕ} (h : n ≤ s.length) : resize s n = s.take n := by
  simp [resize, Nat.sub_eq_zero_of_le h]

/-- `isspace` -/
def isSpace (c : UInt8) : Bool := c = 32 ∨ (9 ≤ c ∧ c ≤ 13)

/-- `::toupper` -/
def toUpper (c : UInt8) : UInt8 := if 97 ≤ c ∧ c ≤ 122 then c - 32 else c

/-- `ss >> word`: the next word of the stream and what is left of it; the word
    is empty once the stream has run dry. -/
def extract (s : Bytes) : Bytes × Bytes :=
  let s := s.dropWhile isSpace
  (s.takeWhile (! isSpace ·), s.dropWhile (! isSpace ·))

/-- The decimal digits of `n`. -/
def decimal (n : ℕ) : Bytes := (Nat.toDigits 10 n).map fun c => UInt8.ofNat c.toNat

/-- `std::to_string` -/
def stdToString : ℤ → Bytes
  | .ofNat n => decimal n
  | .negSucc n => str "-" ++ decimal (n + 1)

/-- The value of the leading digits of `s`, continuing from `acc`. -/
def digitsValue (acc : ℕ) : Bytes → ℕ
  | [] => acc
  | c :: s => if 48 ≤ c ∧ c ≤ 57 then digitsValue (acc * 10 + (c.toNat - 48)) s else acc

/-- `strtol(s, nullptr, 10)`, which saturates at the limits of `long`. -/
def strtol (s : Bytes) : ℤ :=
  match s.dropWhile isSpace with
  | [] => 0
  | c :: s =>
    if c = 45 then max (-(digitsValue 0 s : ℤ)) (-2 ^ 63)
    else if c = 43 then min (digitsValue 0 s : ℤ) (2 ^ 63 - 1)
    else min (digitsValue 0 (c :: s) : ℤ) (2 ^ 63 - 1)

/-- `atoi`, which is `strtol` cut to `int`. -/
def atoi (s : Bytes) : ℤ := toInt (strtol s)

/-! ## Numbers written in digits -/

theorem byte_of_isDigit {d : Char} (h : d.isDigit = true) :
    (UInt8.ofNat d.toNat).toNat = d.toNat ∧ 48 ≤ UInt8.ofNat d.toNat ∧
      UInt8.ofNat d.toNat ≤ 57 := by
  simp only [Char.isDigit, Bool.and_eq_true, decide_eq_true_eq] at h
  have h1 : 48 ≤ d.toNat := h.1
  have h2 : d.toNat ≤ 57 := h.2
  have hn : (UInt8.ofNat d.toNat).toNat = d.toNat := by
    rw [UInt8.toNat_ofNat']; omega
  rw [UInt8.le_iff_toNat_le, UInt8.le_iff_toNat_le, hn]
  exact ⟨rfl, h1, h2⟩

theorem isDigit_decimal {n : ℕ} {d : Char} (h : d ∈ Nat.toDigits 10 n) : d.isDigit = true :=
  Nat.isDigit_of_mem_toDigits (by decide) (by decide) h

theorem mem_decimal {n : ℕ} {c : UInt8} (h : c ∈ decimal n) : 48 ≤ c ∧ c ≤ 57 := by
  obtain ⟨d, hd, rfl⟩ := List.mem_map.1 h
  exact (byte_of_isDigit (isDigit_decimal hd)).2

theorem digitsValue_digits {l : List Char} (h : ∀ d ∈ l, d.isDigit = true) (acc : ℕ) :
    digitsValue acc (l.map fun d => UInt8.ofNat d.toNat) = Nat.ofDigitChars 10 l acc := by
  induction l generalizing acc with
  | nil => simp [digitsValue]
  | cons d l ih =>
    obtain ⟨hn, hc⟩ := byte_of_isDigit (h d (by simp))
    rw [List.map_cons, digitsValue, if_pos hc, hn, ih fun e he => h e (by simp [he])]
    simp [Nat.ofDigitChars, Nat.mul_comm]

/-- A digit is neither a space nor a sign. -/
theorem not_isSpace_of_digit {c : UInt8} (h : 48 ≤ c ∧ c ≤ 57) :
    isSpace c = false ∧ c ≠ 45 ∧ c ≠ 43 := by
  simp only [isSpace, UInt8.le_iff_toNat_le, ne_eq, ← UInt8.toNat_inj] at h ⊢
  simp at h ⊢
  omega

theorem strtol_digits {s : Bytes} (hne : s ≠ []) (h : ∀ c ∈ s, 48 ≤ c ∧ c ≤ 57) :
    strtol s = min (digitsValue 0 s : ℤ) (2 ^ 63 - 1) := by
  obtain ⟨c, s, rfl⟩ := List.exists_cons_of_ne_nil hne
  obtain ⟨hspace, hneg, hpos⟩ := not_isSpace_of_digit (h c (by simp))
  rw [strtol, List.dropWhile_cons_of_neg (by simp [hspace])]
  simp only [if_neg hneg, if_neg hpos]

theorem digitsValue_decimal (n : ℕ) : digitsValue 0 (decimal n) = n :=
  (digitsValue_digits (fun _ => isDigit_decimal) 0).trans Nat.ofDigitChars_ten_toDigits

/-- **`atoi` reads what `std::to_string` writes.** -/
theorem atoi_decimal {n : ℕ} (h : n < 2 ^ 31) : atoi (decimal n) = n := by
  have hne : decimal n ≠ [] := by simp [decimal, Nat.toDigits_ne_nil]
  rw [atoi, strtol_digits hne fun _ => mem_decimal, digitsValue_decimal, min_eq_left (by omega),
    toInt_of_lt h]

end MyHttpServer
