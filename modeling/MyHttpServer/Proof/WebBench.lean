/-
  What `build_request` makes of a URL, for every URL and all options.

  * `addTarget_spec`, `addHeader_spec`: one lemma for each part, as long as there
    is room;
  * `buildRequest_spec`: when it exits, when it leaves its arrays, and what the
    request is;
  * `answered_webBench`: what this server sends to a client that sends the request.
-/
import MyHttpServer.Model.WebBench
import MyHttpServer.Proof.Reply

namespace MyHttpServer.WebBench

open CString

variable {g : Globals} {a s t host url rest : Bytes}

/-! ## Behind the target -/

theorem strcatIf_spec (c : Prop) [Decidable c] (n : ℕ) (h : Holds 0 a s)
    (ht : (0 : UInt8) ∉ t ∧ t.length ≤ n) (hlt : s.length + n < a.length) :
    ∃ b, strcatIf c a t = some b ∧ Holds 0 b (s ++ if c then t else []) ∧ b.length = a.length ∧
      (s ++ if c then t else []).length ≤ s.length + n := by
  obtain ⟨h0, hn⟩ := ht
  by_cases hc : c
  · obtain ⟨b, hb, hh, hl⟩ := h.strcat h0 (by omega)
    refine ⟨b, by rw [strcatIf, if_pos hc, hb], by rwa [if_pos hc], hl, ?_⟩
    rw [if_pos hc, List.length_append]
    omega
  · refine ⟨a, by rw [strcatIf, if_neg hc], by rwa [if_neg hc, List.append_nil], rfl, ?_⟩
    rw [if_neg hc, List.append_nil]
    omega

/-- The end of the first line, and the first field. -/
def versionText (g : Globals) : Bytes :=
  (if g.http10 = 1 then str " HTTP/1.0" else []) ++
    (if g.http10 = 2 then str " HTTP/1.1" else []) ++ str "\r\n" ++
    (if 0 < g.http10 then str "User-Agent: WebBench " ++ PROGRAM_VERSION ++ str "\r\n" else [])

theorem addVersion_spec (h : Holds 0 g.request s) (hlt : s.length + 46 < g.request.length) :
    ∃ b, addVersion g = some b ∧ Holds 0 b (s ++ versionText g) ∧
      b.length = g.request.length ∧ (s ++ versionText g).length ≤ s.length + 46 := by
  obtain ⟨b₁, e₁, h₁, l₁, k₁⟩ := strcatIf_spec (g.http10 = 1) 9 h
    (t := str " HTTP/1.0") (by decide) (by omega)
  obtain ⟨b₂, e₂, h₂, l₂, k₂⟩ := strcatIf_spec (g.http10 = 2) 9 h₁
    (t := str " HTTP/1.1") (by decide) (by omega)
  have hend : (str "\r\n").length = 2 := by decide
  obtain ⟨b₃, e₃, h₃, l₃⟩ := h₂.strcat (t := str "\r\n") (by decide) (by omega)
  have k₃ := @List.length_append _ ((s ++ if g.http10 = 1 then str " HTTP/1.0" else []) ++
    if g.http10 = 2 then str " HTTP/1.1" else []) (str "\r\n")
  obtain ⟨b₄, e₄, h₄, l₄, k₄⟩ := strcatIf_spec (0 < g.http10) 26 h₃
    (t := str "User-Agent: WebBench " ++ PROGRAM_VERSION ++ str "\r\n") (by decide) (by omega)
  refine ⟨b₄, ?_, by simpa only [versionText, List.append_assoc] using h₄, by omega, ?_⟩
  · rw [addVersion]
    simp only [Option.bind_eq_bind, Option.bind_some, e₁, e₂, e₃, e₄]
  · rw [versionText, ← List.append_assoc, ← List.append_assoc, ← List.append_assoc]
    omega

/-- The field `Host`. -/
def hostText (g : Globals) (host : Bytes) : Bytes :=
  if g.proxyhost = none ∧ 0 < g.http10 then str "Host: " ++ host ++ str "\r\n" else []

theorem addHost_spec (h : Holds 0 a s)
    (hhost : g.proxyhost = none ∧ 0 < g.http10 → Holds 0 g.host host)
    (hlt : s.length + host.length + 8 < a.length) :
    ∃ b, addHost g a = some b ∧ Holds 0 b (s ++ hostText g host) ∧ b.length = a.length ∧
      (s ++ hostText g host).length ≤ s.length + host.length + 8 := by
  have h6 : (str "Host: ").length = 6 := by decide
  have h2 : (str "\r\n").length = 2 := by decide
  by_cases hc : g.proxyhost = none ∧ 0 < g.http10
  · have hg := hhost hc
    obtain ⟨b₁, e₁, h₁, l₁⟩ := h.strcat (t := str "Host: ") (by decide) (by omega)
    obtain ⟨b₂, e₂, h₂, l₂⟩ := h₁.strcat hg.1 (by rw [List.length_append]; omega)
    obtain ⟨b₃, e₃, h₃, l₃⟩ := h₂.strcat (t := str "\r\n") (by decide)
      (by simp only [List.length_append]; omega)
    refine ⟨b₃, ?_, ?_, by omega, ?_⟩
    · rw [addHost, if_pos hc, e₁, hg.read]
      simp only [Option.bind_eq_bind, Option.bind_some, e₂, e₃]
    · rw [hostText, if_pos hc]
      simpa only [List.append_assoc] using h₃
    · rw [hostText, if_pos hc]
      simp only [List.length_append]
      omega
  · rw [addHost, hostText, if_neg hc, if_neg hc, List.append_nil]
    exact ⟨a, rfl, h, rfl, by omega⟩

/-- What stands behind the target. -/
def headerText (g : Globals) (host : Bytes) : Bytes :=
  versionText g ++ hostText g host ++
    (if g.force_reload ∧ g.proxyhost ≠ none then str "Pragma: no-cache\r\n" else []) ++
    (if 1 < g.http10 then
      if ! g.keep_alive then str "Connection: close\r\n" else str "Connection: Keep-Alive\r\n"
      else []) ++
    (if 0 < g.http10 then str "\r\n" else [])

theorem addHeader_spec (host : Bytes) (h : Holds 0 g.request s)
    (hhost : g.proxyhost = none ∧ 0 < g.http10 → Holds 0 g.host host)
    (hlt : s.length + host.length + 98 < g.request.length) :
    ∃ request, addHeader g = some { g with request } ∧
      Holds 0 request (s ++ headerText g host) := by
  obtain ⟨b₁, e₁, h₁, l₁, k₁⟩ := addVersion_spec h (by omega)
  obtain ⟨b₂, e₂, h₂, l₂, k₂⟩ := addHost_spec h₁ hhost (by omega)
  obtain ⟨b₃, e₃, h₃, l₃, k₃⟩ := strcatIf_spec (g.force_reload ∧ g.proxyhost ≠ none) 18 h₂
    (t := str "Pragma: no-cache\r\n") (by decide) (by omega)
  have hconn : (0 : UInt8) ∉ (if ! g.keep_alive then str "Connection: close\r\n"
      else str "Connection: Keep-Alive\r\n") ∧ (if ! g.keep_alive then str "Connection: close\r\n"
      else str "Connection: Keep-Alive\r\n").length ≤ 24 := by
    cases g.keep_alive <;> decide
  obtain ⟨b₄, e₄, h₄, l₄, k₄⟩ := strcatIf_spec (1 < g.http10) 24 h₃ hconn (by omega)
  obtain ⟨b₅, e₅, h₅, -, -⟩ := strcatIf_spec (0 < g.http10) 2 h₄
    (t := str "\r\n") (by decide) (by omega)
  refine ⟨b₅, ?_, ?_⟩
  · rw [addHeader]
    simp only [Option.bind_eq_bind, Option.bind_some, e₁, e₂, e₃, e₄, e₅]
    rfl
  · simpa only [headerText, List.append_assoc] using h₅

/-- A host for which there is no room for its end. -/
theorem addHeader_eq_none (h : Holds 0 g.request s) (hproxy : g.proxyhost = none)
    (hversion : 0 < g.http10) (hhost : read 0 g.host = none)
    (hlt : s.length + 52 < g.request.length) : addHeader g = none := by
  obtain ⟨b₁, e₁, h₁, l₁, k₁⟩ := addVersion_spec h (by omega)
  have hlen : (str "Host: ").length = 6 := by decide
  obtain ⟨b₂, e₂, -⟩ := h₁.strcat (t := str "Host: ") (by decide) (by omega)
  have hadd : addHost g b₁ = none := by
    rw [addHost, if_pos ⟨hproxy, hversion⟩, e₂, hhost]
    rfl
  rw [addHeader]
  simp only [Option.bind_eq_bind, Option.bind_some, e₁, hadd, Option.bind_none]

/-! ## Host, port and target -/

theorem strcspn_eq {c : UInt8} (hc : c ∉ s) (t : Bytes) : strcspn (s ++ c :: t) c = s.length := by
  have hall : ∀ b ∈ s, decide (b ≠ c) = true := by
    rintro b hb
    refine decide_eq_true ?_
    rintro rfl
    exact hc hb
  rw [strcspn, List.takeWhile_append_of_pos hall]
  simp

theorem lt_strcspn {c d : UInt8} (hc : c ∉ s) (hd : d ≠ c) (t : Bytes) :
    s.length < strcspn (s ++ d :: t) c := by
  have hall : ∀ b ∈ s, decide (b ≠ c) = true := by
    rintro b hb
    refine decide_eq_true ?_
    rintro rfl
    exact hc hb
  rw [strcspn, List.takeWhile_append_of_pos hall, List.takeWhile_cons_of_pos (by simpa using hd)]
  simp

/-- What stands in front of the first `'/'`. -/
def hostPort (rest : Bytes) : Bytes := rest.takeWhile (· ≠ SLASH)

def hostOf (rest : Bytes) : Bytes := (hostPort rest).takeWhile (· ≠ COLON)

def portOf (rest : Bytes) : Option Bytes :=
  if COLON ∈ hostPort rest then some ((hostPort rest).dropWhile (· ≠ COLON)).tail else none

def targetOf (rest : Bytes) : Bytes := rest.dropWhile (· ≠ SLASH)

/-- A number of 0 stands for the port 80. -/
def portNumber (port : Bytes) : ℤ := if atoi port = 0 then 80 else atoi port

/-- The two forms of what follows `http://`. -/
inductive Splits : Bytes → Bytes → Option Bytes → Bytes → Prop
  | plain {h path} : SLASH ∉ h → COLON ∉ h → Splits (h ++ SLASH :: path) h none (SLASH :: path)
  | port {h p path} : SLASH ∉ h → COLON ∉ h → SLASH ∉ p →
      Splits (h ++ COLON :: (p ++ SLASH :: path)) h (some p) (SLASH :: path)

theorem Splits.eq {h target : Bytes} {port : Option Bytes} (hs : Splits rest h port target) :
    hostOf rest = h ∧ portOf rest = port ∧ targetOf rest = target := by
  have hall {c : UInt8} {s : Bytes} (hc : c ∉ s) : ∀ b ∈ s, decide (b ≠ c) = true := by
    rintro b hb
    refine decide_eq_true ?_
    rintro rfl
    exact hc hb
  cases hs with
  | @plain h path hs hc =>
    have hhp : hostPort (h ++ SLASH :: path) = h := by
      rw [hostPort, List.takeWhile_append_of_pos (hall hs)]
      simp
    refine ⟨?_, ?_, ?_⟩
    · rw [hostOf, hhp, List.takeWhile_eq_self_iff.2 (hall hc)]
    · rw [portOf, hhp, if_neg hc]
    · rw [targetOf, List.dropWhile_append_of_pos (hall hs)]
      simp
  | @port h p path hs hc hp =>
    have hne : COLON ≠ SLASH := by decide
    have hhp : hostPort (h ++ COLON :: (p ++ SLASH :: path)) = h ++ COLON :: p := by
      rw [hostPort, List.takeWhile_append_of_pos (hall hs),
        List.takeWhile_cons_of_pos (by simpa using hne), List.takeWhile_append_of_pos (hall hp)]
      simp
    refine ⟨?_, ?_, ?_⟩
    · rw [hostOf, hhp, List.takeWhile_append_of_pos (hall hc)]
      simp
    · rw [portOf, hhp, if_pos (by simp), List.dropWhile_append_of_pos (hall hc)]
      simp
    · rw [targetOf, List.dropWhile_append_of_pos (hall hs),
        List.dropWhile_cons_of_pos (by simpa using hne), List.dropWhile_append_of_pos (hall hp)]
      simp

theorem exists_splits (hs : SLASH ∈ rest) : ∃ h port target, Splits rest h port target := by
  obtain ⟨hp, path, rfl, hp0⟩ := List.eq_append_cons_of_mem hs
  by_cases hc : COLON ∈ hp
  · obtain ⟨h, p, rfl, hh⟩ := List.eq_append_cons_of_mem hc
    simp only [List.mem_append, List.mem_cons, not_or] at hp0
    refine ⟨h, some p, SLASH :: path, ?_⟩
    simpa using Splits.port hp0.1 hh hp0.2.2
  · exact ⟨hp, none, SLASH :: path, .plain hp0 hc⟩

/-! ### The port -/

theorem digitsValue_nul (n : ℕ) (s t : Bytes) :
    digitsValue n (s ++ 0 :: t) = digitsValue n s := by
  induction s generalizing n with
  | nil => rfl
  | cons c s ih =>
    simp only [List.cons_append, digitsValue]
    split_ifs
    · exact ih _
    · rfl

/-- Bytes from a `NUL` on do not matter to `atoi`. -/
theorem atoi_nul (s t : Bytes) : atoi (s ++ 0 :: t) = atoi s := by
  have hstrtol : strtol (s ++ 0 :: t) = strtol s := by
    rw [strtol, strtol, List.dropWhile_append]
    cases h : s.dropWhile isSpace with
    | nil => rfl
    | cons c r =>
      have hd (n : ℕ) := digitsValue_nul n r t
      have hd' := digitsValue_nul 0 (c :: r) t
      rw [List.cons_append] at hd'
      simp only [List.isEmpty_cons, Bool.false_eq_true, if_false, List.cons_append, hd, hd']
  rw [atoi, atoi, hstrtol]

theorem pastNumber_of_nul (h : 0 ∈ s) : pastNumber s ≠ [] := by
  have hdrop {p : UInt8 → Bool} {s : Bytes} (hp : p 0 = false) (hs : 0 ∈ s) :
      0 ∈ s.dropWhile p := by
    rw [← List.takeWhile_append_dropWhile (p := p) (l := s), List.mem_append] at hs
    refine hs.resolve_left fun hm => ?_
    rw [List.mem_takeWhile_imp hm] at hp
    cases hp
  have hspace := hdrop (p := isSpace) (by decide) h
  have hsign : 0 ∈ (if (s.dropWhile isSpace).head? = some 45 ∨ (s.dropWhile isSpace).head? = some 43
      then (s.dropWhile isSpace).tail else s.dropWhile isSpace) := by
    split_ifs with hc
    · cases hr : s.dropWhile isSpace with
      | nil => simp [hr] at hspace
      | cons c r =>
        rw [hr] at hspace hc
        refine (List.mem_cons.1 hspace).resolve_left ?_
        rintro rfl
        simp at hc
    · exact hspace
  exact List.ne_nil_of_mem (hdrop (by decide) hsign)

/-- The number of a port is read inside the array. -/
def PortFits (p : Bytes) : Prop := p.length < 10 ∨ p.length = 10 ∧ pastNumber p ≠ []

instance (p : Bytes) : Decidable (PortFits p) := inferInstanceAs (Decidable (_ ∨ _))

/-- A port is copied into an array of ten bytes, and read from there. -/
theorem readPort_eq {h : Bytes} (p path : Bytes) (hs : SLASH ∉ h) (hc : COLON ∉ h)
    (hp : SLASH ∉ p) :
    readPort (h ++ COLON :: (p ++ SLASH :: path)) =
      if PortFits p then some (portNumber p) else none := by
  have hcolon := strcspn_eq hc (p ++ SLASH :: path)
  have hslash : strcspn (h ++ COLON :: (p ++ SLASH :: path)) SLASH = h.length + 1 + p.length := by
    have hno : SLASH ∉ h ++ COLON :: p := by
      have hne : SLASH ≠ COLON := by decide
      simp [hs, hp, hne]
    have := strcspn_eq hno path
    rw [List.append_assoc, List.cons_append] at this
    rw [this, List.length_append, List.length_cons]
    omega
  have hdrop : (h ++ COLON :: (p ++ SLASH :: path)).drop (h.length + 1) = p ++ SLASH :: path := by
    rw [← List.drop_drop, List.drop_left]
    rfl
  have hsub : h.length + 1 + p.length - h.length - 1 = p.length := by omega
  have hread : (strncpy 0 (List.replicate 10 0) (p ++ SLASH :: path) p.length).bind atoiArray =
      if PortFits p then some (atoi p) else none := by
    rcases lt_trichotomy p.length 10 with hlt | heq | hgt
    · obtain ⟨k, hk⟩ : ∃ k, 10 - p.length = k + 1 := ⟨9 - p.length, by omega⟩
      rw [strncpy_blank (by simp) hlt.le, List.take_left, hk, List.replicate_succ,
        if_pos (.inl hlt), Option.bind_some, atoiArray, if_neg (pastNumber_of_nul (by simp)),
        atoi_nul]
    · rw [strncpy_blank (by simp) heq.le, List.take_left, heq, Nat.sub_self, List.replicate_zero,
        List.append_nil, Option.bind_some, atoiArray]
      by_cases hn : pastNumber p = []
      · rw [if_pos hn, if_neg]
        rintro (h | ⟨-, h⟩)
        · omega
        · exact h hn
      · rw [if_neg hn, if_pos (.inr ⟨heq, hn⟩)]
    · rw [strncpy_eq_none (by simpa using hgt), Option.bind_none, if_neg]
      rintro (h | ⟨h, -⟩) <;> omega
  rw [readPort, hcolon, hslash, hdrop, hsub]
  simp only [Option.bind_eq_bind, ← Option.bind_assoc, hread]
  split_ifs
  · rfl
  · rfl

/-! ### Both into their arrays -/

/-- The array with a host in it. -/
def hostArray (h : Bytes) : Bytes := h ++ List.replicate (MAXHOSTNAMELEN - h.length) 0

/-- There is room for the host, and for the number. -/
def HostFits (h : Bytes) (port : Option Bytes) : Prop :=
  h.length ≤ MAXHOSTNAMELEN ∧ ∀ p, port = some p → PortFits p

instance (h : Bytes) (port : Option Bytes) : Decidable (HostFits h port) :=
  inferInstanceAs (Decidable (_ ∧ ∀ p ∈ port, _))

theorem setHost_spec {h target : Bytes} {port : Option Bytes}
    (hblank : g.host = List.replicate MAXHOSTNAMELEN 0) (hs : Splits rest h port target) :
    (HostFits h port → setHost g rest = some { g with
      host := hostArray h, proxyport := port.elim g.proxyport portNumber }) ∧
    (¬ HostFits h port → setHost g rest = none) := by
  have hcopy (r : Bytes) : strncpy 0 g.host (h ++ r) h.length =
      if h.length ≤ MAXHOSTNAMELEN then some (hostArray h) else none := by
    rw [hblank]
    split_ifs with hle
    · rw [strncpy_blank (by simp) hle, List.take_left, hostArray]
    · exact strncpy_eq_none (by rw [List.length_replicate]; omega)
  cases hs with
  | @plain h path hs hc =>
    have hno : ¬ strcspn (h ++ SLASH :: path) COLON < strcspn (h ++ SLASH :: path) SLASH := by
      rw [strcspn_eq hs]
      exact (lt_strcspn hc (by decide) path).not_gt
    rw [setHost, if_neg hno, strcspn_eq hs, hcopy]
    constructor
    · rintro ⟨hle, -⟩
      rw [if_pos hle]
      rfl
    · intro hfit
      rw [if_neg fun hle => hfit ⟨hle, by simp⟩]
      rfl
  | @port h p path hs hc hp =>
    have hlt : strcspn (h ++ COLON :: (p ++ SLASH :: path)) COLON <
        strcspn (h ++ COLON :: (p ++ SLASH :: path)) SLASH := by
      rw [strcspn_eq hc]
      exact lt_strcspn hs (by decide) _
    rw [setHost, if_pos hlt, strcspn_eq hc, hcopy, readPort_eq p path hs hc hp]
    constructor
    · rintro ⟨hle, hport⟩
      rw [if_pos hle, if_pos (hport p rfl)]
      rfl
    · intro hfit
      by_cases hle : h.length ≤ MAXHOSTNAMELEN
      · rw [if_pos hle, if_neg]
        · rfl
        · intro hport
          refine hfit ⟨hle, fun q hq => ?_⟩
          cases hq
          exact hport
      · rw [if_neg hle]
        rfl

theorem Splits.drop {h target : Bytes} {port : Option Bytes} (hs : Splits rest h port target) :
    rest.drop (strcspn rest SLASH) = target := by
  rw [← hs.eq.2.2, strcspn, drop_length_takeWhile, targetOf]

/-! ## The request -/

/-- The URLs that are accepted. -/
def ValidUrl (url : Bytes) : Prop :=
  url.length ≤ 1500 ∧ (url.take 7).map toLower = str "http://" ∧ SLASH ∈ url.drop 7

instance (url : Bytes) : Decidable (ValidUrl url) := inferInstanceAs (Decidable (_ ∧ _))

/-- No array is left. -/
def InBounds (g : Globals) (url : Bytes) : Prop :=
  g.proxyhost = none → HostFits (hostOf (url.drop 7)) (portOf (url.drop 7)) ∧
    (0 < (setHttp10 g).http10 → (hostOf (url.drop 7)).length < MAXHOSTNAMELEN)

instance (g : Globals) (url : Bytes) : Decidable (InBounds g url) :=
  inferInstanceAs (Decidable (_ → _ ∧ _))

/-- What is asked for. -/
def targetText (g : Globals) (url : Bytes) : Bytes :=
  if g.proxyhost = none then targetOf (url.drop 7) else url

def requestText (g : Globals) (url : Bytes) : Bytes :=
  methodText g.method ++ str " " ++ targetText g url ++
    headerText (setHttp10 g) (hostOf (url.drop 7))

theorem methodText_length (m : Method) : (methodText m).length ≤ 7 ∧ 0 ∉ methodText m := by
  cases m <;> decide

theorem toLower_eq {c d : UInt8} (h : toLower c = d) (hd : ¬ (97 ≤ d ∧ d ≤ 122)) : c = d := by
  unfold toLower at h
  split_ifs at h with hc
  · grind
  · exact h

/-- `"://"` is found behind the scheme. -/
theorem find_scheme (h : (url.take 7).map toLower = str "http://") :
    find (str "://") url = some 4 := by
  have hstr : str "http://" = [104, 116, 116, 112, 58, 47, 47] := by decide
  simp only [hstr, List.map_eq_cons_iff, List.map_eq_nil_iff] at h
  obtain ⟨c₁, _, hu, h₁, c₂, _, rfl, h₂, c₃, _, rfl, h₃, c₄, _, rfl, h₄, c₅, _, rfl, h₅, c₆, _, rfl,
    h₆, c₇, _, rfl, h₇, rfl⟩ := h
  have hurl : url = c₁ :: c₂ :: c₃ :: c₄ :: 58 :: 47 :: 47 :: url.drop 7 := by
    conv_lhs => rw [← List.take_append_drop 7 url, hu, toLower_eq h₅ (by decide),
      toLower_eq h₆ (by decide), toLower_eq h₇ (by decide)]
    rfl
  have hne {c d : UInt8} (hc : toLower c = d) (hd : toLower 58 ≠ d) : ¬ 58 = c := by
    rintro rfl
    exact hd hc
  have hsep : str "://" = [58, 47, 47] := by decide
  rw [hsep, hurl]
  simp [find, hne h₁ (by decide), hne h₂ (by decide), hne h₃ (by decide), hne h₄ (by decide)]

/-- The first word is in its array. -/
theorem method_spec (m : Method) : ∃ b₁ b₂,
    strcpy 0 (List.replicate REQUEST_SIZE 0) (methodText m) = some b₁ ∧
    strcat 0 b₁ (str " ") = some b₂ ∧ Holds 0 b₂ (methodText m ++ str " ") ∧
    b₂.length = REQUEST_SIZE := by
  obtain ⟨hm, hm0⟩ := methodText_length m
  have hone : (str " ").length = 1 := by decide
  obtain ⟨b₁, e₁, h₁, l₁⟩ := strcpy_blank REQUEST_SIZE hm0
    (Nat.lt_of_le_of_lt hm (by decide))
  obtain ⟨b₂, e₂, h₂, l₂⟩ := h₁.strcat (t := str " ") (by decide)
    (by rw [l₁, hone, REQUEST_SIZE]; omega)
  exact ⟨b₁, b₂, e₁, e₂, h₂, l₂.trans l₁⟩

/-- `build_request` is its two parts for a URL that it accepts, and exits for
    any other. -/
theorem buildRequest_eq (g : Globals) (url : Bytes) : ∃ request,
    Holds 0 request (methodText g.method ++ str " ") ∧ request.length = REQUEST_SIZE ∧
    (¬ ValidUrl url → buildRequest g url = .error (.exit 2)) ∧
    (ValidUrl url → buildRequest g url = do
      let g ← inBounds (addTarget { setHttp10 g with
        host := List.replicate MAXHOSTNAMELEN 0, request } url (url.drop 7))
      inBounds (addHeader g)) := by
  obtain ⟨b₁, b₂, e₁, e₂, h₂, l₂⟩ := method_spec g.method
  refine ⟨b₂, h₂, l₂, fun hv => ?_, fun hv => ?_⟩
  · simp only [buildRequest, setHttp10, e₁, e₂, inBounds, Except.ok_bind]
    cases hf : find (str "://") url with
    | none => rfl
    | some pos =>
      by_cases hlen : 1500 < url.length
      · exact if_pos hlen
      by_cases hscheme : (url.take 7).map toLower = str "http://"
      swap
      · exact (if_neg hlen).trans (if_pos hscheme)
      rw [find_scheme hscheme] at hf
      cases hf
      refine (if_neg hlen).trans ((if_neg (not_not.2 hscheme)).trans (if_pos fun hslash => ?_))
      exact hv ⟨not_lt.1 hlen, hscheme, hslash⟩
  · obtain ⟨hlen, hscheme, hslash⟩ := hv
    simp only [buildRequest, setHttp10, e₁, e₂, inBounds, Except.ok_bind, find_scheme hscheme]
    rw [if_neg (not_lt.2 hlen), if_neg (not_not.2 hscheme), if_neg (not_not.2 hslash)]

theorem Splits.length {h target : Bytes} {port : Option Bytes} (hs : Splits rest h port target) :
    h.length + target.length ≤ rest.length ∧ ∀ c, c ∉ rest → c ∉ h ∧ c ∉ target := by
  cases hs with
  | plain =>
    constructor
    · simp
    · intro c hc
      simpa using hc
  | port =>
    constructor
    · simp only [List.length_append, List.length_cons]
      omega
    · intro c hc
      simp only [List.mem_append, List.mem_cons, not_or] at hc ⊢
      exact ⟨hc.1, hc.2.2.2⟩

/-- The array with a host in it is a string if there is room for its end. -/
theorem hostArray_read {h : Bytes} (h0 : 0 ∉ h) (hle : h.length ≤ MAXHOSTNAMELEN) :
    (h.length < MAXHOSTNAMELEN → Holds 0 (hostArray h) h) ∧
      (¬ h.length < MAXHOSTNAMELEN → read 0 (hostArray h) = none) := by
  constructor
  · intro hlt
    exact holds_padded h0 (by omega)
  · intro hge
    have hzero : MAXHOSTNAMELEN - h.length = 0 := by omega
    refine read_eq_none ?_
    rwa [hostArray, hzero, List.replicate_zero, List.append_nil]

/-- With a host. -/
theorem addParts_host {h target : Bytes} {port : Option Bytes} (hproxy : g.proxyhost = none)
    (hblank : g.host = List.replicate MAXHOSTNAMELEN 0) (hr : Holds 0 g.request s)
    (hs : Splits rest h port target) (h0 : 0 ∉ rest)
    (hlt : s.length + rest.length + 98 < g.request.length) :
    (¬ (HostFits h port ∧ (0 < g.http10 → h.length < MAXHOSTNAMELEN)) →
      (addTarget g url rest).bind addHeader = none) ∧
    (HostFits h port → (0 < g.http10 → h.length < MAXHOSTNAMELEN) →
      ∃ g', (addTarget g url rest).bind addHeader = some g' ∧
        Holds 0 g'.request (s ++ target ++ headerText g h) ∧ g'.host = hostArray h ∧
        g'.proxyport = port.elim g.proxyport portNumber) := by
  obtain ⟨hyes, hno⟩ := setHost_spec hblank hs
  obtain ⟨hlen, hmem⟩ := hs.length
  obtain ⟨hh0, ht0⟩ := hmem 0 h0
  by_cases hfit : HostFits h port
  swap
  · refine ⟨fun _ => ?_, fun hf => absurd hf hfit⟩
    rw [addTarget, if_pos hproxy, hno hfit]
    rfl
  obtain ⟨b, e, hb, hl⟩ := hr.strcat ht0 (by omega)
  set g₁ : Globals := { g with
    host := hostArray h, proxyport := port.elim g.proxyport portNumber, request := b } with hg₁
  have hadd : addTarget g url rest = some g₁ := by
    rw [addTarget, if_pos hproxy, hyes hfit, hs.drop]
    simp only [Option.bind_eq_bind, Option.bind_some, e]
    rfl
  have hstr : (s ++ target).length = s.length + target.length := List.length_append
  obtain ⟨hended, hopen⟩ := hostArray_read hh0 hfit.1
  rw [hadd, Option.bind_some]
  constructor
  · intro hend
    have hc : 0 < g.http10 ∧ ¬ h.length < MAXHOSTNAMELEN := by
      by_contra hc
      exact hend ⟨hfit, fun hv => by_contra fun hn => hc ⟨hv, hn⟩⟩
    exact addHeader_eq_none (g := g₁) hb hproxy hc.1 (hopen hc.2)
      (by show (s ++ target).length + 52 < b.length; omega)
  · intro _ hend
    obtain ⟨request, he, hreq⟩ := addHeader_spec (g := g₁) h hb (fun hc => hended (hend hc.2))
      (by show (s ++ target).length + h.length + 98 < b.length; omega)
    exact ⟨_, he, hreq, rfl, rfl⟩

/-- With a proxy, the whole URL is the target. -/
theorem addParts_proxy (hproxy : g.proxyhost ≠ none) (hr : Holds 0 g.request s) (h0 : 0 ∉ url)
    (hlt : s.length + url.length + 98 < g.request.length) (h : Bytes) :
    ∃ g', (addTarget g url rest).bind addHeader = some g' ∧
      Holds 0 g'.request (s ++ url ++ headerText g h) := by
  obtain ⟨b, e, hb, hl⟩ := hr.strcat h0 (by omega)
  have hadd : addTarget g url rest = some { g with request := b } := by
    rw [addTarget, if_neg hproxy, e]
    rfl
  have hstr : (s ++ url).length = s.length + url.length := List.length_append
  obtain ⟨request, he, hreq⟩ := addHeader_spec (g := { g with request := b }) [] hb
    (fun hc => absurd hc.1 hproxy) (by show (s ++ url).length + 0 + 98 < b.length; omega)
  rw [hadd, Option.bind_some]
  refine ⟨_, he, ?_⟩
  have hnone (h : Bytes) : hostText { g with request := b } h = [] := if_neg fun hc => hproxy hc.1
  rw [headerText, hnone] at hreq
  rw [headerText, show hostText g h = [] from hnone h]
  exact hreq

theorem inBounds_bind {α β : Type} (x : Option α) (f : α → Option β) :
    (do let a ← inBounds x; inBounds (f a)) = inBounds (x.bind f) := by
  cases x <;> rfl

theorem buildRequest_exit (hv : ¬ ValidUrl url) : buildRequest g url = .error (.exit 2) := by
  obtain ⟨request, hr, hl, hno, hyes⟩ := buildRequest_eq g url
  exact hno hv

theorem buildRequest_valid (h0 : 0 ∉ url) (hv : ValidUrl url) :
    (¬ InBounds g url → buildRequest g url = .error .outOfBounds) ∧
    (InBounds g url → ∃ g', buildRequest g url = .ok g' ∧
      Holds 0 g'.request (requestText g url) ∧
      (g.proxyhost = none → g'.host = hostArray (hostOf (url.drop 7)) ∧
        g'.proxyport = (portOf (url.drop 7)).elim g.proxyport portNumber)) := by
  obtain ⟨request, hr, hl, -, hyes⟩ := buildRequest_eq g url
  have hm : (methodText g.method ++ str " ").length ≤ 8 := by
    have hone : (str " ").length = 1 := by decide
    have := (methodText_length g.method).1
    rw [List.length_append]
    omega
  set g₁ : Globals := { setHttp10 g with
    host := List.replicate MAXHOSTNAMELEN 0, request } with hg₁
  simp only [inBounds_bind] at hyes
  have hsize : (methodText g.method ++ str " ").length + url.length + 98 < g₁.request.length := by
    have hle := hv.1
    show _ < request.length
    rw [hl, REQUEST_SIZE]
    omega
  by_cases hproxy : g.proxyhost = none
  · obtain ⟨h, port, target, hs⟩ := exists_splits hv.2.2
    obtain ⟨rfl, rfl, rfl⟩ := hs.eq
    have hdrop : (url.drop 7).length ≤ url.length := by simp
    obtain ⟨hout, hin⟩ := @addParts_host g₁ _ url _ _ _ _ hproxy rfl hr hs
      (fun hm => h0 (List.mem_of_mem_drop hm)) (by omega)
    constructor
    · intro hb
      rw [hyes hv, hout fun hc => hb fun _ => hc]
      rfl
    · intro hb
      obtain ⟨hfit, hend⟩ := hb hproxy
      obtain ⟨g', he, hreq, hhost, hport⟩ := hin hfit hend
      refine ⟨g', by rw [hyes hv, he]; rfl, ?_, fun _ => ⟨hhost, hport⟩⟩
      rw [requestText, targetText, if_pos hproxy]
      exact hreq
  · obtain ⟨g', he, hreq⟩ := @addParts_proxy g₁ _ url (url.drop 7) hproxy hr h0 hsize
      (hostOf (url.drop 7))
    constructor
    · intro hb
      exact absurd (fun hp => absurd hp hproxy) hb
    · intro _
      refine ⟨g', by rw [hyes hv, he]; rfl, ?_, fun hp => absurd hp hproxy⟩
      rw [requestText, targetText, if_neg hproxy]
      exact hreq

/-- A request that has been built is the one of a URL that is accepted. -/
theorem buildRequest_ok {g' : Globals} (h0 : 0 ∉ url) (hg : buildRequest g url = .ok g') :
    ValidUrl url ∧ InBounds g url ∧ Holds 0 g'.request (requestText g url) ∧
      (g.proxyhost = none → g'.host = hostArray (hostOf (url.drop 7)) ∧
        g'.proxyport = (portOf (url.drop 7)).elim g.proxyport portNumber) := by
  by_cases hv : ValidUrl url
  swap
  · rw [buildRequest_exit hv] at hg
    cases hg
  obtain ⟨hout, hin⟩ := buildRequest_valid (g := g) h0 hv
  by_cases hb : InBounds g url
  swap
  · rw [hout hb] at hg
    cases hg
  obtain ⟨g'', he, h⟩ := hin hb
  rw [he] at hg
  cases hg
  exact ⟨hv, hb, h⟩

/-- **What `build_request` makes of a URL**, with any options: it exits, or it
    writes or reads behind the end of an array, or the request is there. -/
theorem buildRequest_spec (g : Globals) (h0 : 0 ∉ url) :
    (buildRequest g url = .error (.exit 2) ↔ ¬ ValidUrl url) ∧
    (buildRequest g url = .error .outOfBounds ↔ ValidUrl url ∧ ¬ InBounds g url) ∧
    (ValidUrl url → InBounds g url → ∃ g', buildRequest g url = .ok g' ∧
      read 0 g'.request = some (requestText g url) ∧
      (g.proxyhost = none → g'.host = hostArray (hostOf (url.drop 7)) ∧
        g'.proxyport = (portOf (url.drop 7)).elim g.proxyport portNumber)) := by
  by_cases hv : ValidUrl url
  swap
  · have he := buildRequest_exit (g := g) hv
    exact ⟨by simp [he, hv], by simp [he, hv], fun h => absurd h hv⟩
  obtain ⟨hout, hin⟩ := buildRequest_valid (g := g) h0 hv
  by_cases hb : InBounds g url
  · obtain ⟨g', he, hh, hp⟩ := hin hb
    exact ⟨by simp [he, hv], by simp [he, hb], fun _ _ => ⟨g', he, hh.read, hp⟩⟩
  · have he := hout hb
    exact ⟨by simp [he, hv], by simp [he, hv, hb], fun _ h => absurd h hb⟩

theorem buildRequest_spec_local :
    ∃ g', buildRequest {} (str "http://127.0.0.1:8081/a?b") = .ok g' ∧
      read 0 g'.request = some (str "GET /a?b HTTP/1.0\r\nUser-Agent: WebBench 1.5\r\n" ++
        str "Host: 127.0.0.1\r\n\r\n") ∧ g'.proxyport = 8081 := by
  have h := @buildRequest_spec (str "http://127.0.0.1:8081/a?b") {} (by decide +kernel)
  obtain ⟨g', he, hr, hp⟩ := h.2.2 (by decide +kernel) (by decide +kernel)
  refine ⟨g', he, ?_, ?_⟩
  · rw [hr]
    decide +kernel
  · rw [(hp rfl).2]
    decide +kernel

/-! ## Its lines -/

/-- The first line, without its end. -/
def firstLine (g : Globals) (url : Bytes) : Bytes :=
  methodText g.method ++ str " " ++ targetText g url ++
    (if (setHttp10 g).http10 = 1 then str " HTTP/1.0" else []) ++
    (if (setHttp10 g).http10 = 2 then str " HTTP/1.1" else [])

/-- The header lines of a request with a version, without their ends. -/
def fields (g : Globals) (host : Bytes) : List Bytes :=
  [str "User-Agent: WebBench " ++ PROGRAM_VERSION] ++
    (if g.proxyhost = none then [str "Host: " ++ host] else []) ++
    (if g.force_reload ∧ g.proxyhost ≠ none then [str "Pragma: no-cache"] else []) ++
    (if 1 < g.http10 then
      [if ! g.keep_alive then str "Connection: close" else str "Connection: Keep-Alive"] else [])

theorem requestText_head (h : 0 < (setHttp10 g).http10) :
    requestText g url = Lines.headText CR LF
      (firstLine g url :: fields (setHttp10 g) (hostOf (url.drop 7))) := by
  have hend : str "\r\n" = [CR, LF] := by decide
  have hpragma : str "Pragma: no-cache\r\n" = str "Pragma: no-cache" ++ [CR, LF] := by decide
  have hclose : str "Connection: close\r\n" = str "Connection: close" ++ [CR, LF] := by decide
  have hkeep : str "Connection: Keep-Alive\r\n" = str "Connection: Keep-Alive" ++ [CR, LF] := by
    decide
  have hproxy : (setHttp10 g).proxyhost = g.proxyhost := rfl
  rw [requestText, firstLine, headerText, versionText, hostText, fields]
  simp only [h, and_true, if_true, hend, hpragma, hclose, hkeep, hproxy, Lines.headText_cons]
  split_ifs <;> simp [Lines.headText]

/-- With HTTP/0.9 there is a line and nothing behind it. -/
theorem requestText_line (h : (setHttp10 g).http10 = 0) :
    requestText g url = firstLine g url ++ str "\r\n" := by
  have hreload : ¬ ((setHttp10 g).force_reload = true ∧ (setHttp10 g).proxyhost ≠ none) := by
    rintro ⟨hf, hp⟩
    have hf : g.force_reload = true := hf
    have hp : g.proxyhost ≠ none := hp
    simp only [setHttp10, hf, hp, ne_eq, not_false_eq_true, true_and] at h
    split_ifs at h
    omega
  rw [requestText, firstLine, headerText, versionText, hostText, if_neg hreload]
  simp [h]

theorem targetText_mem {c : UInt8} (hc : c ∈ targetText g url) : c ∈ url := by
  rw [targetText] at hc
  split_ifs at hc
  · exact List.mem_of_mem_drop ((List.dropWhile_suffix _).mem hc)
  · exact hc

theorem firstLine_line (hc : CR ∉ url) (hl : LF ∉ url) :
    Lines.HeadLine CR LF (firstLine g url) := by
  have hmethod : methodText g.method ≠ [] ∧ CR ∉ methodText g.method ∧
      LF ∉ methodText g.method := by
    cases g.method <;> decide
  obtain ⟨hne, hmc, hml⟩ := hmethod
  have hct : CR ∉ targetText g url := fun h => hc (targetText_mem h)
  have hlt : LF ∉ targetText g url := fun h => hl (targetText_mem h)
  have hwords : ∀ c ∈ [CR, LF], c ∉ str " " ∧ c ∉ str " HTTP/1.0" ∧ c ∉ str " HTTP/1.1" := by
    decide +kernel
  obtain ⟨c₁, c₂, c₃⟩ := hwords CR (by simp)
  obtain ⟨l₁, l₂, l₃⟩ := hwords LF (by simp)
  rw [firstLine]
  refine ⟨by simp [hne], ?_, ?_⟩
  · split_ifs <;> simp [hmc, hct, c₁, c₂, c₃]
  · split_ifs <;> simp [hml, hlt, l₁, l₂, l₃]

theorem fields_line {host : Bytes} (hc : CR ∉ host) (hl : LF ∉ host) :
    ∀ l ∈ fields g host, Lines.HeadLine CR LF l := by
  have hagent : Lines.HeadLine CR LF (str "User-Agent: WebBench " ++ PROGRAM_VERSION) := by
    refine ⟨?_, ?_, ?_⟩ <;> decide
  have hhost : Lines.HeadLine CR LF (str "Host: " ++ host) := by
    have hname : str "Host: " ≠ [] ∧ CR ∉ str "Host: " ∧ LF ∉ str "Host: " := by decide
    exact ⟨by simp [hname.1], by simp [hname.2.1, hc], by simp [hname.2.2, hl]⟩
  have hpragma : Lines.HeadLine CR LF (str "Pragma: no-cache") := by
    refine ⟨?_, ?_, ?_⟩ <;> decide
  have hconn : Lines.HeadLine CR LF
      (if ! g.keep_alive then str "Connection: close" else str "Connection: Keep-Alive") := by
    cases g.keep_alive <;> refine ⟨?_, ?_, ?_⟩ <;> decide
  intro l hm
  simp only [fields, List.mem_append] at hm
  rcases hm with ((hm | hm) | hm) | hm
  · rwa [List.mem_singleton.1 hm]
  · split_ifs at hm
    · rwa [List.mem_singleton.1 hm]
    · cases hm
  · split_ifs at hm
    · rwa [List.mem_singleton.1 hm]
    · cases hm
  · split_ifs at hm with h1 h2
    · rw [if_pos h2] at hconn
      rwa [List.mem_singleton.1 hm]
    · rw [if_neg h2] at hconn
      rwa [List.mem_singleton.1 hm]
    · cases hm

theorem targetText_length : (targetText g url).length ≤ url.length := by
  rw [targetText]
  split_ifs
  · exact (List.dropWhile_suffix _).length_le.trans (by simp)
  · exact le_rfl

theorem firstLine_length : (firstLine g url).length ≤ url.length + 26 := by
  have hmethod := (methodText_length g.method).1
  have htarget := @targetText_length g url
  have hwords : (str " ").length = 1 ∧ (str " HTTP/1.0").length = 9 ∧
      (str " HTTP/1.1").length = 9 := by decide
  obtain ⟨h₁, h₂, h₃⟩ := hwords
  rw [firstLine]
  split_ifs <;> simp only [List.length_append, List.length_nil, h₁, h₂, h₃] <;> omega

theorem fields_length {host l : Bytes} (hm : l ∈ fields g host) : l.length ≤ host.length + 30 := by
  have hwords : (str "User-Agent: WebBench " ++ PROGRAM_VERSION).length ≤ 30 ∧
      (str "Host: ").length ≤ 30 ∧ (str "Pragma: no-cache").length ≤ 30 ∧
      (str "Connection: close").length ≤ 30 ∧ (str "Connection: Keep-Alive").length ≤ 30 := by
    decide
  obtain ⟨h₁, h₂, h₃, h₄, h₅⟩ := hwords
  simp only [fields, List.mem_append] at hm
  rcases hm with ((hm | hm) | hm) | hm
  · rw [List.mem_singleton.1 hm]
    omega
  · split_ifs at hm
    · rw [List.mem_singleton.1 hm, List.length_append]
      omega
    · cases hm
  · split_ifs at hm
    · rw [List.mem_singleton.1 hm]
      omega
    · cases hm
  · split_ifs at hm
    · rw [List.mem_singleton.1 hm]
      omega
    · rw [List.mem_singleton.1 hm]
      omega
    · cases hm

/-! ## The answer -/

section
variable {sock : ℤ} {u : Unset} {closed : Bool}

theorem codeOf_firstLine (h : g.method ≠ .GET) :
    EndPoint.codeOf (firstLine g url) = BAD_REQUEST := by
  have hmethod (rest : Bytes) : extract (methodText g.method ++ str " " ++ rest) =
      (methodText g.method, str " " ++ rest) := by
    have hspace : str " " = [SP] := by decide
    rw [List.append_assoc]
    refine Token.extract ⟨methodText g.method, ?_, ?_⟩ ?_
    · cases g.method <;> decide
    · cases g.method <;> decide +kernel
    · simp only [hspace, List.singleton_append, List.head?_cons, Option.mem_def,
        Option.some.injEq]
      rintro c rfl
      decide
  have hno : ¬ ((methodText g.method).map toUpper = GET ∨
      (methodText g.method).map toUpper = POST) := by
    revert h
    cases g.method <;> decide +kernel
  rw [EndPoint.codeOf, EndPoint.requestOf_method, firstLine, List.append_assoc,
    List.append_assoc, hmethod, if_neg hno]

/-- Another method than GET is answered with the page for status 400. -/
theorem reply_firstLine {σ : Type} (M : Machine σ) (disk : σ) (h : g.method ≠ .GET) :
    reply M disk (firstLine g url) = errorReply BAD_REQUEST [] (M.page disk PAGE_400) false := by
  rw [reply, if_pos (codeOf_firstLine h)]

/-- A head without an empty line behind its first line is not read to its end. -/
theorem recvHttpRequest_unended {bs : Bytes} (hu : u.stop = false)
    (hno : [] ∉ (Lines.split CR LF bs).tail) :
    ((EndPoint.new sock u).recvHttpRequest (arrived bs closed)).1.stop = true := by
  obtain ⟨ls, ok, t, cs, h, hrun⟩ := EndPoint.recvHttpRequest_reads (arrived bs closed)
  have hok := h.blank_mem rfl
  rw [stream_arrived] at hok
  cases ok with
  | false => exact (hrun sock u hu).2.1 rfl
  | true => exact absurd (hok rfl) hno

theorem requestText_block (hcr : CR ∉ url) (hlf : LF ∉ url) (h : 0 < (setHttp10 g).http10) :
    Lines.Head CR LF (firstLine g url :: fields (setHttp10 g) (hostOf (url.drop 7))) []
      (requestText g url) := by
  have hhost : hostOf (url.drop 7) ⊆ url := fun c hc =>
    List.mem_of_mem_drop ((List.takeWhile_prefix _).mem ((List.takeWhile_prefix _).mem hc))
  refine ⟨?_, by rw [requestText_head h, List.append_nil]⟩
  rintro l (_ | ⟨_, hm⟩)
  · exact firstLine_line hcr hlf
  · exact fields_line (fun hc => hcr (hhost hc)) (fun hl => hlf (hhost hl)) l hm

/-- The server reads a request that has an empty line. -/
theorem recvHttpRequest_requestText (hu : u.stop = false) (hcr : CR ∉ url) (hlf : LF ∉ url)
    (hsize : url.length ≤ 1500) (h : 0 < (setHttp10 g).http10) :
    ((EndPoint.new sock u).recvHttpRequest (arrived (requestText g url) closed)).1 =
      EndPoint.parsed (.new sock u) (firstLine g url) := by
  have hb := requestText_block hcr hlf h
  refine (@EndPoint.recvHttpRequest_head sock u hu _ _ _ _ closed hb.block
    (fun l hm => (hb.lines l (by simp [hm])).ne_nil) ?_).1
  rintro l (_ | ⟨_, hm⟩)
  · have := @firstLine_length g url
    omega
  · have h₁ := fields_length hm
    have h₂ : (hostOf (url.drop 7)).length ≤ url.length := by
      refine (List.takeWhile_prefix _).length_le.trans ?_
      exact (List.takeWhile_prefix _).length_le.trans (by simp)
    omega

/-- It gives up on a request of HTTP/0.9, which has none. -/
theorem recvHttpRequest_old (hu : u.stop = false) (hcr : CR ∉ url) (hlf : LF ∉ url)
    (h : (setHttp10 g).http10 = 0) :
    ((EndPoint.new sock u).recvHttpRequest (arrived (requestText g url) closed)).1.stop = true := by
  have hfirst := @firstLine_line g url hcr hlf
  have hsplit : Lines.split CR LF (requestText g url) = [firstLine g url] := by
    have hend : str "\r\n" = [CR, LF] := by decide
    have hn : Lines.next CR LF (firstLine g url ++ [CR, LF] ++ []) = some (firstLine g url, []) :=
      Lines.next_line CR_ne_LF hfirst.cr_notMem hfirst.lf_notMem .crlf
    rw [List.append_nil, ← hend, ← requestText_line h] at hn
    rw [Lines.split_of_next hn]
    rfl
  exact recvHttpRequest_unended hu (by simp [hsplit])

end

end MyHttpServer.WebBench

namespace MyHttpServer.Server
open WebBench

variable {σ W : Type} [DecidableEq W] {e : Setting σ}
  {s : Running KernelCall.Answer (Server σ W) W EndPoint} {g g' : Globals} {url text : Bytes}

/-- **What the server sends for a request of `build_request`**: the reply to its
    first line; and nothing at all with HTTP/0.9, where there is no empty line. -/
theorem answered_webBench (hd : e.DiskKept) (hfit : e.machine.Fits e.disk)
    (h : (system W e).Reachable s) {c : ℕ} {r : Serving} (hr : (c, r) ∈ s.shared.answered)
    (hmet : true ∉ r.met) (hu : r.unset.stop = false) (hcr : CR ∉ url) (hlf : LF ∉ url)
    (h0 : 0 ∉ url) (hg : buildRequest g url = .ok g') (ht : CString.read 0 g'.request = some text)
    {closed : Bool} (hclient : e.client c = (arrived text closed, { wire := [], plan := [] })) :
    let answer := reply e.machine.leaving (e.disk, r.left) (firstLine g url)
    (0 < (setHttp10 g).http10 → answer.body.length < 2 ^ 32 →
      (s.shared.tx c).wire = answer.bytes) ∧
    (g.method ≠ .GET →
      answer = errorReply BAD_REQUEST [] (e.machine.page e.disk PAGE_400) false) ∧
    ((setHttp10 g).http10 = 0 → (s.shared.tx c).wire = []) := by
  intro answer
  obtain ⟨⟨hsize, -⟩, -, hh, -⟩ := buildRequest_ok h0 hg
  obtain rfl : requestText g url = text := Option.some.inj (hh.read.symm.trans ht)
  obtain ⟨k, owner, ho, -, -⟩ := owned hd h
  obtain ⟨-, htx⟩ := ho.books.done (c, r) hr
  rw [Setting.handledAlone, hclient] at htx
  refine ⟨fun hversion hbody => ?_, reply_firstLine _ _, fun hversion => ?_⟩
  · rw [← htx]
    exact sent_reply (M := e.machine.leaving) hu
      (w := ⟨arrived (requestText g url) closed, { wire := [], plan := [] },
        alone (e.disk, r.left) r.met⟩)
      (recvHttpRequest_requestText hu hcr hlf hsize hversion) rfl (granted_alone hmet)
      (fits_leaving hfit r.left) hbody
  · have hstop := @recvHttpRequest_old g url r.sock r.unset closed hu hcr hlf hversion
    rw [← htx, handlerRequest_of_stop e.machine.leaving (w := ⟨arrived (requestText g url) closed,
      { wire := [], plan := [] }, alone (e.disk, r.left) r.met⟩) hstop]

/-- `http://localhost/` with OPTIONS, which makes it a request of version 1.1. -/
theorem answered_webBench_options : ∃ g' text,
    buildRequest { method := .OPTIONS } (str "http://localhost/") = .ok g' ∧
    CString.read 0 g'.request = some text ∧
    ∃ s : Running KernelCall.Answer (Server ℕ Unit) Unit EndPoint,
      (system Unit (sends text)).Reachable s ∧
      (s.shared.tx 0).wire = str "HTTP/1.1 400 BADREQUEST\r\n\r\n" := by
  obtain ⟨g', he, hr, -⟩ := (@buildRequest_valid { method := .OPTIONS } (str "http://localhost/")
    (by decide +kernel) (by decide +kernel)).2 (by decide +kernel)
  refine ⟨g', _, he, hr.read, ?_⟩
  obtain ⟨s, h, hans⟩ := reachable_answered
    (@recvHttpRequest_requestText { method := .OPTIONS } (str "http://localhost/") 5 ⟨false, 0, 0⟩
      true rfl (by decide +kernel) (by decide +kernel) (by decide +kernel) (by decide +kernel))
    (codeOf_firstLine (by decide)) (by decide +kernel)
  obtain ⟨hsent, hreply, -⟩ := @answered_webBench _ _ _ _ _ { method := .OPTIONS } _
    (str "http://localhost/") _ (diskKept_sends _) (fun p f hf => by cases hf) h _ _ hans (by simp)
    rfl (by decide +kernel) (by decide +kernel) (by decide +kernel) he hr.read _ rfl
  rw [hreply (by decide)] at hsent
  have hbytes : (errorReply BAD_REQUEST [] (noFiles.page (0 : ℕ) PAGE_400) false).bytes =
      str "HTTP/1.1 400 BADREQUEST\r\n\r\n" := by decide +kernel
  exact ⟨s, h, (hsent (by decide +kernel) (by decide +kernel)).trans hbytes⟩

end MyHttpServer.Server
