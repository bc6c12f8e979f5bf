/-
  The stack buffer of `DataTimeFormatItem::format`, which is not initialised.

  `strftime` leaves it unspecified when the time and a `NUL` do not fit into its
  64 bytes, and `format` puts it into the record all the same.

  * `Expansion`: what is assumed of `strftime`;
  * `bufferFree_iff`: the patterns whose records do not depend on the buffers;
  * `not_bufferFree_plain`: the ones that do include every `%d` with a format of
    64 plain characters or more.
-/
import Mathlib.Algebra.Order.BigOperators.Group.List
import MyHttpServer.Proof.Escape

namespace MyHttpServer

/-! ## The buffer -/

/-- What a format of `strftime` stands for at a time, whatever room there is. -/
structure Expansion where
  expand : Bytes → ℕ → Bytes
  copies : ∀ c fmt time, c ≠ PERCENT → c ≠ 0 → expand (c :: fmt) time = c :: expand fmt time

/-- The contents of `char buf[64]`. -/
abbrev StackBuf := {buf : Bytes // buf.length = 64}

namespace Expansion
variable (x : Expansion)

/-- The time fits into the buffer, with a `NUL` behind it. -/
def Fits (format : Bytes) (time : ℕ) : Prop := (x.expand (cStr format) time).length < 64

instance (format : Bytes) (time : ℕ) : Decidable (x.Fits format time) :=
  inferInstanceAs (Decidable (_ < _))

/-- `strftime(buf, sizeof(buf), ..)` into the buffer `buf`. -/
def clock (buf : StackBuf) : FormatItem.Clock where
  strftime format time :=
    if x.Fits format time then some (cStr (x.expand (cStr format) time)) else none
  buf := buf.1

/-- Without a `'%'` all characters are copied. -/
theorem length_le_expand {format : Bytes} (hp : PERCENT ∉ format) (hz : 0 ∉ format) (time : ℕ) :
    format.length ≤ (x.expand (cStr format) time).length := by
  induction format with
  | nil => exact Nat.zero_le _
  | cons c format ih =>
    simp only [List.mem_cons, not_or] at hp hz
    have hstr : cStr (c :: format) = c :: cStr format := by simp [cStr, Ne.symm hz.1]
    rw [hstr, x.copies c _ _ (Ne.symm hp.1) (Ne.symm hz.1), List.length_cons, List.length_cons]
    exact Nat.succ_le_succ (ih hp.2 hz.2)

end Expansion

/-! ## Items -/

section
variable (x : Expansion) {level : LogLevel} {event : LogEvent}

namespace FormatItem

/-- The item is not a time, or one that fits. -/
def Settled (x : Expansion) (time : ℕ) (item : FormatItem) : Prop :=
  ∀ format, item = .dateTime format → x.Fits format time

theorem Settled.format_eq {x : Expansion} {item : FormatItem} (h : item.Settled x event.time)
    (buf buf' : StackBuf) :
    item.format (x.clock buf) level event = item.format (x.clock buf') level event := by
  cases item with
  | dateTime format => simp only [FormatItem.format, Expansion.clock, if_pos (h format rfl)]; rfl
  | message | level | elapse | name | threadId | fiberId | filename | line | newLine | string
  | tab => rfl

/-- Two contents of a buffer that tell themselves apart. -/
def emptyBuf : StackBuf := ⟨List.replicate 64 0, by decide⟩

@[inherit_doc emptyBuf]
def markedBuf : StackBuf := ⟨ch '?' :: List.replicate 63 0, by decide⟩

theorem format_lt {item : FormatItem} (h : ¬ item.Settled x event.time) :
    (item.format (x.clock emptyBuf) level event).length <
      (item.format (x.clock markedBuf) level event).length := by
  unfold Settled at h
  push Not at h
  obtain ⟨format, rfl, hf⟩ := h
  simp only [FormatItem.format, Expansion.clock, if_neg hf]
  decide +kernel

theorem format_le (item : FormatItem) :
    (item.format (x.clock emptyBuf) level event).length ≤
      (item.format (x.clock markedBuf) level event).length := by
  by_cases h : item.Settled x event.time
  · rw [h.format_eq emptyBuf markedBuf]
  · exact (format_lt x h).le

end FormatItem

/-! ## Records -/

namespace LogFormatter

/-- `format(logger, level, event)`, where the `k`-th item finds `bufs k` in its
    buffer. -/
def formatOn (f : LogFormatter) (bufs : ℕ → StackBuf) (level : LogLevel) (event : LogEvent) :
    Bytes :=
  f.items.zipIdx.flatMap fun p => p.1.format (x.clock (bufs p.2)) level event

/-- With the same contents for all items this is `format`. -/
theorem formatOn_const (f : LogFormatter) (buf : StackBuf) :
    f.formatOn x (fun _ => buf) level event = f.format (x.clock buf) level event := by
  have hfst : f.items.zipIdx.map Prod.fst = f.items := List.zipIdx_map_fst 0 f.items
  rw [formatOn, LogFormatter.format, ← hfst, List.flatMap_map, hfst]

/-- Nothing of what the buffers hold gets into the record. -/
def BufferFree (f : LogFormatter) (level : LogLevel) (event : LogEvent) : Prop :=
  ∀ bufs bufs' : ℕ → StackBuf,
    f.formatOn x bufs level event = f.formatOn x bufs' level event

variable {x} {f : LogFormatter}

theorem bufferFree_of_settled (h : ∀ item ∈ f.items, item.Settled x event.time) :
    f.BufferFree x level event := by
  intro bufs bufs'
  refine List.flatMap_congr fun p hp => ?_
  exact (h p.1 (List.fst_mem_of_mem_zipIdx hp)).format_eq _ _

theorem BufferFree.settled (h : f.BufferFree x level event) :
    ∀ item ∈ f.items, item.Settled x event.time := by
  intro item hm
  by_contra hs
  have heq := h (fun _ => FormatItem.emptyBuf) (fun _ => FormatItem.markedBuf)
  rw [formatOn_const, formatOn_const] at heq
  have hlt : (f.format (x.clock FormatItem.emptyBuf) level event).length <
      (f.format (x.clock FormatItem.markedBuf) level event).length := by
    rw [LogFormatter.format, LogFormatter.format, List.length_flatMap, List.length_flatMap]
    exact List.sum_lt_sum _ _ (fun item _ => FormatItem.format_le x item)
      ⟨item, hm, FormatItem.format_lt x hs⟩
  rw [heq] at hlt
  exact lt_irrefl _ hlt

end LogFormatter

end

/-! ## Patterns -/

/-- The format of an item `%d`, built with `fmt`. -/
def dateFormat (fmt : Bytes) : Bytes := if fmt = [] then str "%Y-%m-%d %H:%M:%S" else fmt

theorem itemNamed_eq_dateTime {c : UInt8} (hc : c ∈ letters) {fmt format : Bytes} :
    itemNamed c fmt = .dateTime format ↔ c = ch 'd' ∧ dateFormat fmt = format := by
  by_cases hd : c = ch 'd'
  · subst hd
    have hitem : itemNamed (ch 'd') fmt = .dateTime (dateFormat fmt) := rfl
    rw [hitem, FormatItem.dateTime.injEq]
    simp
  · refine ⟨fun he => ?_, fun h => absurd h.1 hd⟩
    rw [letters_eq] at hc
    simp only [List.mem_cons, List.not_mem_nil, or_false] at hc
    rcases hc with rfl | rfl | rfl | rfl | rfl | rfl | rfl | rfl | rfl | rfl | rfl <;>
      first | exact absurd rfl hd | cases he

theorem itemNamed_settled_iff {x : Expansion} {time : ℕ} {c : UInt8} (hc : c ∈ letters)
    (fmt : Bytes) :
    (itemNamed c fmt).Settled x time ↔ (c = ch 'd' → x.Fits (dateFormat fmt) time) := by
  simp only [FormatItem.Settled, itemNamed_eq_dateTime hc]
  exact ⟨fun h hd => h _ ⟨hd, rfl⟩, fun h _ ⟨hd, he⟩ => he ▸ h hd⟩

namespace LogFormatter
variable {x : Expansion}

theorem itemOfPart_settled_iff {time : ℕ} (p : PatternPart) :
    (itemOfPart p).1.Settled x time ↔
      (p.type ≠ 0 → p.str = str "d" → x.Fits (dateFormat p.fmt) time) := by
  have hd : str "d" = [ch 'd'] := by decide
  rw [hd]
  unfold itemOfPart
  split
  · rename_i ht
    exact ⟨fun _ h => absurd ht h, fun _ _ he => by cases he⟩
  rename_i ht
  split
  · rename_i hl
    refine ⟨fun _ _ hs => ?_, fun _ _ he => by cases he⟩
    rw [hs] at hl
    cases hl
  · rename_i make hl
    obtain ⟨c, hc, hs⟩ := letter_of_lookup hl
    obtain ⟨make', hl', hmake⟩ := lookup_of_letter hc
    rw [hs, hl', Option.some.injEq] at hl
    rw [← hl, hmake, itemNamed_settled_iff hc, hs]
    simp [ht]

/-- The pattern has an item `%d` whose format is `format`. -/
def HasDate (pattern format : Bytes) : Prop :=
  ∃ ps e, Compiles pattern [] ps e ∧ ∃ p ∈ ps, p.type ≠ 0 ∧ p.str = str "d" ∧
    dateFormat p.fmt = format

/-- **The records of a pattern do not depend on the buffers** exactly if every
    time in them fits. -/
theorem bufferFree_iff (x : Expansion) (pattern : Bytes) (level : LogLevel) (event : LogEvent) :
    (new pattern).BufferFree x level event ↔
      ∀ format, HasDate pattern format → x.Fits format event.time := by
  constructor
  · rintro h _ ⟨ps, e, hcomp, p, hp, ht, hs, rfl⟩
    have hitem : (itemOfPart p).1 ∈ (new pattern).items := by
      rw [(new_of_compiles hcomp).1]
      exact List.mem_map_of_mem hp
    exact (itemOfPart_settled_iff p).1 (h.settled _ hitem) ht hs
  · intro h
    obtain ⟨ps, e, hcomp⟩ := exists_compiles pattern []
    refine bufferFree_of_settled fun item hi => ?_
    rw [(new_of_compiles hcomp).1] at hi
    obtain ⟨p, hp, rfl⟩ := List.mem_map.1 hi
    rw [itemOfPart_settled_iff]
    exact fun ht hs => h _ ⟨ps, e, hcomp, p, hp, ht, hs, rfl⟩

/-- `%d{fmt}` -/
def datePattern (fmt : Bytes) : Bytes := PERCENT :: ([ch 'd'] ++ LBRACE :: (fmt ++ [RBRACE]))

theorem compiles_datePattern {fmt : Bytes} (hb : RBRACE ∉ fmt) :
    Compiles (datePattern fmt) [] [⟨str "d", fmt, 1⟩] false := by
  have hname : ∀ c ∈ [ch 'd'], NameChar c := by
    intro c hc
    rw [List.mem_singleton.1 hc]
    exact .inl (by decide)
  have hne : some (ch 'd') ≠ some PERCENT := by decide
  exact .item hne (.braced hname hb) .done

/-- **Plain text of 64 characters or more** in the braces of `%d` does not fit. -/
theorem not_bufferFree_plain {fmt : Bytes} (hlen : 64 ≤ fmt.length) (hb : RBRACE ∉ fmt)
    (hp : PERCENT ∉ fmt) (hz : 0 ∉ fmt) :
    (new (datePattern fmt)).isError = false ∧
      ∀ x level event, ¬ (new (datePattern fmt)).BufferFree x level event := by
  have hcomp := compiles_datePattern hb
  have hne : fmt ≠ [] := by
    rintro rfl
    cases hlen
  obtain ⟨hitems, herr⟩ := new_of_compiles hcomp
  have hitem : (itemOfPart ⟨str "d", fmt, 1⟩).1 = .dateTime fmt := by
    show FormatItem.newDateTime fmt = _
    rw [FormatItem.newDateTime, if_neg hne]
  refine ⟨herr.2 ⟨rfl, ?_⟩, fun x level event h => ?_⟩
  · intro p hm
    rw [List.mem_singleton.1 hm]
    rfl
  · have hfits : x.Fits fmt event.time := by
      refine h.settled (.dateTime fmt) ?_ fmt rfl
      rw [hitems, ← hitem]
      exact List.mem_singleton_self _
    have hle := x.length_le_expand hp hz event.time
    unfold Expansion.Fits at hfits
    omega

/-- A pattern whose record is whatever the buffer holds. -/
theorem not_bufferFree_plain_xs :
    let x : Expansion := { expand := fun format _ => format, copies := fun _ _ _ _ _ => rfl }
    let pattern := datePattern (List.replicate 64 (ch 'x'))
    (new pattern).isError = false ∧ ¬ (new pattern).BufferFree x .INFO blankEvent := by
  intro x pattern
  obtain ⟨herr, hfree⟩ := @not_bufferFree_plain (List.replicate 64 (ch 'x')) (by decide)
    (by decide +kernel) (by decide +kernel) (by decide +kernel)
  exact ⟨herr, hfree x .INFO blankEvent⟩

end LogFormatter

end MyHttpServer
