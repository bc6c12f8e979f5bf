/-
  Escaped text as a pattern.

  The comment on `init` has `%%` stand for a percent sign.  The scan takes the
  first sign of `%%` for text, but does not pass over the second one: of a run of
  `2k` percent signs `2k - 1` are taken for text, and the last one begins an item.

  * `escape_compiles`: where the scan of an escaped text gets to;
  * `escape_output`: what is rendered differs from the text behind the last item;
  * `escapes_iff`: an escaped text is rendered as itself only if there is nothing
    to escape in it.
-/
import MyHttpServer.Proof.Pattern

namespace MyHttpServer

/-- A text with every `'%'` doubled. -/
def escape (s : Bytes) : Bytes := s.flatMap fun c => if c = PERCENT then [PERCENT, PERCENT] else [c]

@[simp] theorem escape_nil : escape [] = [] := rfl

theorem escape_append (s t : Bytes) : escape (s ++ t) = escape s ++ escape t :=
  List.flatMap_append

theorem escape_cons {c : UInt8} (h : c ≠ PERCENT) (s : Bytes) :
    escape (c :: s) = c :: escape s := by
  simp [escape, h]

theorem escape_percent (s : Bytes) : escape (PERCENT :: s) = PERCENT :: PERCENT :: escape s := by
  simp [escape]

theorem escape_of_notMem {s : Bytes} (h : PERCENT ∉ s) : escape s = s := by
  induction s with
  | nil => rfl
  | cons c s ih =>
    rw [List.mem_cons, not_or] at h
    rw [escape_cons (Ne.symm h.1), ih h.2]

theorem escape_replicate (k : ℕ) :
    escape (List.replicate k PERCENT) = List.replicate (2 * k) PERCENT := by
  induction k with
  | zero => rfl
  | succ k ih =>
    rw [List.replicate_succ, escape_percent, ih]
    rfl

/-- An escaped text that is cut at another character than `'%'`. -/
theorem escape_eq_append {s u v : Bytes} {c : UInt8} (hc : c ≠ PERCENT)
    (h : escape s = u ++ c :: v) : ∃ s₁ s₂, s = s₁ ++ c :: s₂ ∧ escape s₁ = u ∧ escape s₂ = v := by
  induction s generalizing u with
  | nil => simp at h
  | cons d s ih =>
    by_cases hd : d = PERCENT
    · subst hd
      rw [escape_percent] at h
      match u with
      | [] => exact absurd (List.cons.inj h).1.symm hc
      | [_] => exact absurd (List.cons.inj (List.cons.inj h).2).1.symm hc
      | x :: y :: u =>
        obtain ⟨hx, h⟩ := List.cons.inj h
        obtain ⟨hy, h⟩ := List.cons.inj h
        obtain ⟨s₁, s₂, rfl, rfl, rfl⟩ := ih h
        exact ⟨PERCENT :: s₁, s₂, rfl, by rw [escape_percent, ← hx, ← hy], rfl⟩
    · rw [escape_cons hd] at h
      match u with
      | [] =>
        obtain ⟨rfl, rfl⟩ := List.cons.inj h
        exact ⟨[], s, rfl, rfl, rfl⟩
      | x :: u =>
        obtain ⟨hx, h⟩ := List.cons.inj h
        obtain ⟨s₁, s₂, rfl, rfl, rfl⟩ := ih h
        exact ⟨d :: s₁, s₂, rfl, by rw [escape_cons hd, hx], rfl⟩

/-- A text with a percent sign, cut at the first run of them. -/
theorem exists_percents {s : Bytes} (h : PERCENT ∈ s) :
    ∃ a k b, s = a ++ List.replicate (k + 1) PERCENT ++ b ∧ PERCENT ∉ a ∧
      b.head? ≠ some PERCENT := by
  obtain ⟨a, t, rfl, ha⟩ := List.eq_append_cons_of_mem h
  refine ⟨a, (t.takeWhile (· = PERCENT)).length, t.dropWhile (· = PERCENT), ?_, ha, ?_⟩
  · have hrep : t.takeWhile (· = PERCENT) =
        List.replicate (t.takeWhile (· = PERCENT)).length PERCENT := by
      refine List.eq_replicate_iff.2 ⟨rfl, fun c hc => ?_⟩
      simpa using List.all_eq_true.1 List.all_takeWhile c hc
    rw [List.replicate_succ, ← hrep, List.append_assoc, List.cons_append,
      List.takeWhile_append_dropWhile]
  · intro hh
    have := List.head?_dropWhile_not (· = PERCENT) t
    rw [hh] at this
    simp at this

theorem head?_escape (s : Bytes) : (escape s).head? = s.head? := by
  cases s with
  | nil => rfl
  | cons c s =>
    by_cases hc : c = PERCENT
    · subst hc; rw [escape_percent]; rfl
    · rw [escape_cons hc]; rfl

/-! ## The scan of an escaped text -/

theorem Compiles.chars_inv {l r text : Bytes} {ps : List PatternPart} {e : Bool}
    (hl : PERCENT ∉ l) (h : Compiles (l ++ r) text ps e) : Compiles r (text ++ l) ps e := by
  induction l generalizing text with
  | nil => simpa using h
  | cons c l ih =>
    rw [List.mem_cons, not_or] at hl
    rw [List.cons_append] at h
    generalize hw : l ++ r = w at h
    cases h with
    | char hc h =>
      subst hw
      simpa using ih hl.2 h
    | double => exact absurd rfl hl.1
    | item => exact absurd rfl hl.1
    | unclosed => exact absurd rfl hl.1

/-- A run of percent signs is text, but for the last one. -/
theorem Compiles.percents_inv {r text : Bytes} {ps : List PatternPart} {e : Bool} {k : ℕ}
    (h : Compiles (List.replicate (k + 1) PERCENT ++ r) text ps e) :
    Compiles (PERCENT :: r) (text ++ List.replicate k PERCENT) ps e := by
  induction k generalizing text with
  | zero => simpa using h
  | succ k ih =>
    rw [List.replicate_succ, List.replicate_succ] at h
    cases h with
    | char hc => exact absurd rfl hc
    | double h =>
      have : Compiles (PERCENT :: r) (text ++ [PERCENT] ++ List.replicate k PERCENT) ps e := ih h
      rwa [List.append_assoc, List.singleton_append, ← List.replicate_succ] at this
    | item hh => exact absurd rfl hh
    | unclosed hh => exact absurd rfl hh

/-- **The first escaped percent sign begins an item.** -/
theorem escape_compiles {a b text : Bytes} {k : ℕ} {ps : List PatternPart} {e : Bool}
    (ha : PERCENT ∉ a)
    (h : Compiles (escape (a ++ List.replicate (k + 1) PERCENT ++ b)) text ps e) :
    Compiles (PERCENT :: escape b) (text ++ a ++ List.replicate (2 * k + 1) PERCENT) ps e := by
  rw [escape_append, escape_append, escape_of_notMem ha, escape_replicate, List.append_assoc] at h
  exact (h.chars_inv ha).percents_inv

/-- What the parts of a pattern write. -/
def output (clock : FormatItem.Clock) (level : LogLevel) (event : LogEvent)
    (ps : List PatternPart) : Bytes :=
  ps.flatMap fun p => (LogFormatter.itemOfPart p).1.format clock level event

section
variable {clock : FormatItem.Clock} {level : LogLevel} {event : LogEvent}

theorem output_append (ps qs : List PatternPart) :
    output clock level event (ps ++ qs) =
      output clock level event ps ++ output clock level event qs :=
  List.flatMap_append

@[simp] theorem output_pushText (text : Bytes) :
    output clock level event (pushText [] text) = text := by
  unfold pushText
  split_ifs with h
  · rw [h]; rfl
  · simp [output, LogFormatter.itemOfPart, FormatItem.format]

theorem format_of_compiles {pattern : Bytes} {ps : List PatternPart} {e : Bool}
    (h : Compiles pattern [] ps e) :
    (LogFormatter.new pattern).format clock level event = output clock level event ps := by
  rw [LogFormatter.format, (LogFormatter.new_of_compiles h).1, List.flatMap_map, output]

/-- Text without percent signs is rendered as itself. -/
theorem output_of_notMem {r text : Bytes} {ps : List PatternPart} {e : Bool} (hr : PERCENT ∉ r)
    (h : Compiles r text ps e) :
    output clock level event ps = text ++ r ∧ e = false ∧
      ∀ p ∈ ps, (LogFormatter.itemOfPart p).2 = false := by
  rw [← List.append_nil r] at h
  cases h.chars_inv hr with
  | done =>
    refine ⟨output_pushText _, rfl, ?_⟩
    intro p hp
    unfold pushText at hp
    split_ifs at hp
    · cases hp
    · cases List.mem_singleton.1 hp
      rfl

end

/-! ## The last item -/

/-- What is used of `strftime` in the "C" locale: it writes no `'}'` if there is
    none in the format, and for the default format digits, `'-'`, `':'` and a
    space. -/
structure Strftime (f : Bytes → ℕ → Option Bytes) : Prop where
  brace : ∀ fmt time out, RBRACE ∉ fmt → f fmt time = some out → RBRACE ∉ out
  default : ∀ time out, f (str "%Y-%m-%d %H:%M:%S") time = some out → ch 'd' ∉ out

/-- An event with nothing in it that an item could be mistaken for. -/
def blankEvent : LogEvent :=
  { file := [], line := 0, elapse := 0, threadId := 0, fiberId := 0, time := 0, content := []
    loggerName := [], level := .UNKOWN }

/-- What the items other than the time write for it. -/
theorem other_output {c : UInt8} (hc : c ∈ letters) (hd : c ≠ ch 'd') :
    ∃ out, (∀ clock fmt, (itemNamed c fmt).format clock .UNKOWN blankEvent = out) ∧
      c ∉ out ∧ RBRACE ∉ out := by
  rw [letters_eq] at hc
  simp only [List.mem_cons, List.not_mem_nil, or_false] at hc
  rcases hc with rfl | rfl | rfl | rfl | rfl | rfl | rfl | rfl | rfl | rfl | rfl
  · exact ⟨[], fun _ _ => rfl, by decide⟩
  · exact ⟨str "UNKOWN", fun _ _ => rfl, by decide +kernel⟩
  · exact ⟨decimal 0, fun _ _ => rfl, by decide +kernel⟩
  · exact ⟨[], fun _ _ => rfl, by decide⟩
  · exact ⟨decimal 0, fun _ _ => rfl, by decide +kernel⟩
  · exact ⟨[LF], fun _ _ => rfl, by decide⟩
  · exact absurd rfl hd
  · exact ⟨[], fun _ _ => rfl, by decide⟩
  · exact ⟨stdToString 0, fun _ _ => rfl, by decide +kernel⟩
  · exact ⟨[9], fun _ _ => rfl, by decide⟩
  · exact ⟨decimal 0, fun _ _ => rfl, by decide +kernel⟩

/-- For it no item writes the letter that names it, or a brace. -/
theorem itemNamed_avoids {f : Bytes → ℕ → Option Bytes} (hf : Strftime f) {c : UInt8} {fmt : Bytes}
    (hc : c ∈ letters) (hb : RBRACE ∉ fmt) :
    let out := (itemNamed c fmt).format ⟨f, []⟩ .UNKOWN blankEvent
    (fmt = [] → c ∉ out) ∧ RBRACE ∉ out := by
  intro out
  by_cases hd : c = ch 'd'
  · subst hd
    have hout : out = (f (if fmt = [] then str "%Y-%m-%d %H:%M:%S" else fmt) 0).getD [] := rfl
    have hdefault : RBRACE ∉ str "%Y-%m-%d %H:%M:%S" := by decide +kernel
    rw [hout]
    by_cases hnil : fmt = []
    · rw [if_pos hnil]
      cases hr : f (str "%Y-%m-%d %H:%M:%S") 0 with
      | none => simp
      | some w => exact ⟨fun _ => hf.default 0 w hr, hf.brace _ 0 w hdefault hr⟩
    · rw [if_neg hnil]
      refine ⟨fun h => absurd h hnil, ?_⟩
      cases hr : f fmt 0 with
      | none => simp
      | some w => exact hf.brace fmt 0 w hb hr
  · obtain ⟨w, hw, hcw, hbw⟩ := other_output hc hd
    have hout : out = w := hw ⟨f, []⟩ fmt
    rw [hout]
    exact ⟨fun _ => hcw, hbw⟩

/-- The item that begins behind an escaped text, and the character in front of
    what follows it, which the item does not write. -/
theorem item_before {f : Bytes → ℕ → Option Bytes} (hf : Strftime f) {b name fmt rest : Bytes}
    (hr : ReadsItem (escape b) name fmt (some rest))
    (hname : (LogFormatter.itemOfPart ⟨name, fmt, 1⟩).2 = false) :
    ∃ x r, x :: r <:+ b ∧ escape r = rest ∧ x ≠ PERCENT ∧
      x ∉ (LogFormatter.itemOfPart ⟨name, fmt, 1⟩).1.format ⟨f, []⟩ .UNKOWN blankEvent := by
  obtain ⟨make, hmake⟩ : ∃ make, formatItems.lookup name = some make := by
    refine Option.ne_none_iff_exists'.1 ?_
    intro hn
    simp [LogFormatter.itemOfPart, hn] at hname
  obtain ⟨c, hc, rfl⟩ := letter_of_lookup hmake
  rw [itemOfPart_letter hc]
  generalize ht : escape b = t at hr
  cases hr with
  | bare hn hh =>
    obtain ⟨b₁, b₂, rfl, h1, h2⟩ := escape_eq_append (u := []) (letter_name hc).2 ht
    exact ⟨c, b₂, List.suffix_append _ _, h2, (letter_name hc).2,
      (itemNamed_avoids hf hc (by simp)).1 rfl⟩
  | braced hn hb =>
    have hbr : RBRACE ≠ PERCENT := by decide
    have ht' : escape b = (c :: LBRACE :: fmt) ++ RBRACE :: rest := by simpa using ht
    obtain ⟨b₁, b₂, rfl, h1, h2⟩ := escape_eq_append hbr ht'
    exact ⟨RBRACE, b₂, List.suffix_append _ _, h2, hbr, (itemNamed_avoids hf hc hb).2⟩

/-- **What is written in front of the text behind the last item is not what stands
    there in the text that has been escaped.** -/
theorem escape_output {f : Bytes → ℕ → Option Bytes} (hf : Strftime f) {s text : Bytes}
    {ps : List PatternPart} {e : Bool} (hs : PERCENT ∈ s) (h : Compiles (escape s) text ps e)
    (he : e = false) (hp : ∀ p ∈ ps, (LogFormatter.itemOfPart p).2 = false) :
    ∃ x z lit, x :: lit <:+ s ∧ z :: lit <:+ output ⟨f, []⟩ .UNKOWN blankEvent ps ∧ z ≠ x := by
  induction hn : s.length using Nat.strong_induction_on generalizing s text ps with
  | _ n ih =>
    subst hn
    obtain ⟨a, k, b, rfl, ha, hb⟩ := exists_percents hs
    have hc := escape_compiles ha h
    generalize hT : text ++ a ++ List.replicate (2 * k + 1) PERCENT = T at hc
    have hlast : ∃ T', T = T' ++ [PERCENT] := by
      refine ⟨text ++ a ++ List.replicate (2 * k) PERCENT, ?_⟩
      rw [← hT, List.replicate_succ', ← List.append_assoc]
    generalize hw : escape b = w at hc
    have hhead : w.head? ≠ some PERCENT := by rw [← hw, head?_escape]; exact hb
    cases hc with
    | char hne => exact absurd rfl hne
    | double => exact absurd rfl hhead
    | unclosed => cases he
    | @item _ _ name fmt rest ps _ _ hr hrest =>
      subst hw
      have hname := hp ⟨name, fmt, 1⟩ (by simp)
      have hps : ∀ p ∈ ps, (LogFormatter.itemOfPart p).2 = false := fun p hm => hp p (by simp [hm])
      obtain ⟨x, r, hx, rfl, hxp, hout⟩ := item_before hf hr hname
      rw [output_append, output_pushText]
      have hxs : x :: r <:+ a ++ List.replicate (k + 1) PERCENT ++ b :=
        hx.trans (List.suffix_append _ _)
      set out := (LogFormatter.itemOfPart ⟨name, fmt, 1⟩).1.format ⟨f, []⟩ .UNKOWN blankEvent
      have hcons : output ⟨f, []⟩ .UNKOWN blankEvent (⟨name, fmt, 1⟩ :: ps) =
          out ++ output ⟨f, []⟩ .UNKOWN blankEvent ps := rfl
      rw [hcons]
      by_cases hmore : PERCENT ∈ r
      · have hlt : r.length < (a ++ List.replicate (k + 1) PERCENT ++ b).length := by
          have := hxs.length_le
          rw [List.length_cons] at this
          omega
        obtain ⟨y, z, lit, hy, hz, hne⟩ := ih _ hlt hmore hrest hps rfl
        refine ⟨y, z, lit, hy.trans ((List.suffix_cons x r).trans hxs), hz.trans ?_, hne⟩
        exact (List.suffix_append _ _).trans (List.suffix_append _ _)
      · rw [escape_of_notMem hmore] at hrest
        have htail := (@output_of_notMem ⟨f, []⟩ .UNKOWN blankEvent _ _ _ _ hmore hrest).1
        rw [htail, List.nil_append]
        -- the last character in front of `r` is of the item, or a percent sign
        obtain ⟨T', hT'⟩ := hlast
        rcases List.eq_nil_or_concat out with hnil | ⟨out', z, hz⟩
        · refine ⟨x, PERCENT, r, hxs, ?_, hxp.symm⟩
          rw [hnil, hT']
          exact ⟨T', by simp⟩
        · refine ⟨x, z, r, hxs, ?_, ?_⟩
          · rw [hz]
            exact ⟨T ++ out', by simp⟩
          · rintro rfl
            exact hout (by rw [hz]; simp)

/-- The pattern that escapes `s` compiles without an error, and renders every event
    as `s`, whatever is in the buffer of `strftime`. -/
def Escapes (f : Bytes → ℕ → Option Bytes) (s : Bytes) : Prop :=
  (LogFormatter.new (escape s)).isError = false ∧
    ∀ buf level event, (LogFormatter.new (escape s)).format ⟨f, buf⟩ level event = s

/-- **Escaping works exactly for the texts in which there is nothing to escape.** -/
theorem escapes_iff {f : Bytes → ℕ → Option Bytes} (hf : Strftime f) (s : Bytes) :
    Escapes f s ↔ PERCENT ∉ s := by
  obtain ⟨ps, e, hc⟩ := exists_compiles (escape s) []
  constructor
  · rintro ⟨herr, hfmt⟩ hs
    obtain ⟨he, hp⟩ := (LogFormatter.new_of_compiles hc).2.1 herr
    obtain ⟨x, z, lit, hx, hz, hne⟩ := escape_output hf hs hc he hp
    have hout := hfmt [] .UNKOWN blankEvent
    rw [format_of_compiles hc] at hout
    rw [hout] at hz
    have heq := (List.suffix_of_suffix_length_le hx hz (by simp)).eq_of_length (by simp)
    exact hne (List.cons.inj heq).1.symm
  · intro hs
    have hc' := hc
    rw [escape_of_notMem hs] at hc'
    have hout clock level event := @output_of_notMem clock level event _ _ _ _ hs hc'
    refine ⟨(LogFormatter.new_of_compiles hc).2.2 ?_, ?_⟩
    · exact (hout ⟨f, []⟩ .UNKOWN blankEvent).2
    · intro buf level event
      rw [format_of_compiles hc, (hout ⟨f, buf⟩ level event).1, List.nil_append]

/-- `strftime` at the start of 1970, for the default format and for formats without
    a conversion. -/
def epoch (fmt : Bytes) (_ : ℕ) : Option Bytes :=
  if fmt = str "%Y-%m-%d %H:%M:%S" then some (str "1970-01-01 00:00:00")
  else if PERCENT ∉ fmt ∧ fmt.length < 64 then some (cStr fmt)
  else none

theorem strftime_epoch : Strftime epoch := by
  have hepoch : RBRACE ∉ str "1970-01-01 00:00:00" ∧ ch 'd' ∉ str "1970-01-01 00:00:00" := by
    decide +kernel
  constructor
  · intro fmt time out hb h
    unfold epoch at h
    split_ifs at h <;> cases h
    · exact hepoch.1
    · exact fun hm => hb ((List.takeWhile_prefix _).subset hm)
  · intro time out h
    rw [epoch, if_pos rfl] at h
    cases h
    exact hepoch.2

theorem escapes_iff_plain : Escapes epoch (str "[m] \x7bd\x7d: 100") :=
  (escapes_iff strftime_epoch _).2 (by decide +kernel)

/-- A percent sign at the end: the second one of `%%` begins an item without a
    name. -/
theorem percent_unescaped :
    escape (str "100%") = str "100%%" ∧
      (LogFormatter.new (str "100%%")).items = [.string (str "100%"),
        .string (str "<<error_format %>>")] ∧
      (LogFormatter.new (str "100%%")).isError = true ∧ ¬ Escapes epoch (str "100%") := by
  have hesc : escape (str "100%") = str "100%%" := by decide +kernel
  have herr : (LogFormatter.new (str "100%%")).isError = true := by decide +kernel
  refine ⟨hesc, by decide +kernel, herr, ?_⟩
  rintro ⟨h, -⟩
  rw [hesc, herr] at h
  cases h

end MyHttpServer
