/-
  `ParseHttpRequestHeader` on any list of header lines.

  A line is a field if `": "` occurs in it: its name is in front of the first
  `": "`, its value behind it.  `Cutstring` finds both, but the pair is put into
  a copy of the map.

  * `cutstring_field`: `Cutstring` cuts a line at its first `": "`;
  * `parsed_iff`: the map is what the lines say only if there are none.
-/
import MyHttpServer.Proof.Request

namespace MyHttpServer

/-! ## The first occurrence of a symbol -/

theorem find_some {symbol s : Bytes} {i : ℕ} (h : find symbol s = some i) :
    i ≤ s.length ∧ symbol <+: s.drop i ∧ ∀ j < i, ¬ symbol <+: s.drop j := by
  induction s generalizing i with
  | nil =>
    simp only [find] at h
    split at h <;> cases h
    rename_i hs
    simp [hs]
  | cons c s ih =>
    simp only [find] at h
    split at h
    · rename_i hp
      cases h
      exact ⟨Nat.zero_le _, List.isPrefixOf_iff_prefix.1 hp, by omega⟩
    · rename_i hp
      obtain ⟨i, hi, rfl⟩ := Option.map_eq_some_iff.1 h
      obtain ⟨hle, hpre, hlt⟩ := ih hi
      refine ⟨by simpa using hle, by simpa using hpre, ?_⟩
      intro j hj
      cases j with
      | zero => exact fun hz => hp (List.isPrefixOf_iff_prefix.2 hz)
      | succ j => simpa using hlt j (by omega)

theorem find_of_infix {symbol s : Bytes} (h : symbol <:+: s) : ∃ i, find symbol s = some i := by
  induction s with
  | nil => exact ⟨0, by simp [find, List.infix_nil.1 h]⟩
  | cons c s ih =>
    simp only [find]
    split
    · exact ⟨0, rfl⟩
    · rename_i hp
      rcases List.infix_cons_iff.1 h with h | h
      · exact absurd (List.isPrefixOf_iff_prefix.2 h) hp
      · obtain ⟨i, hi⟩ := ih h
        exact ⟨i + 1, by simp [hi]⟩

/-! ## Fields -/

/-- `line` has the part `name` in front of its first `": "`, and `value`
    behind it. -/
structure Field (line name value : Bytes) : Prop where
  eq : line = name ++ SEP ++ value
  first : ∀ j < name.length, ¬ SEP <+: line.drop j

/-- `Cutstring` cuts a line at its first `": "`. -/
theorem cutstring_field {line : Bytes} (h : SEP <:+: line) (hl : line.length < 2 ^ 31) :
    Field line (Util.cutstring line [] [] SEP).1 (Util.cutstring line [] [] SEP).2 := by
  obtain ⟨i, hi⟩ := find_of_infix h
  obtain ⟨hle, ⟨rest, hrest⟩, hfirst⟩ := find_some hi
  have hlen : i + 2 ≤ line.length := by
    have := congrArg List.length hrest
    simp only [List.length_append, List.length_drop, show SEP.length = 2 from rfl] at this
    omega
  have hcut : Util.cutstring line [] [] SEP = (line.take i, line.drop (i + 2)) := by
    have hn : (i : ℤ) ≠ npos := by simp only [npos]; omega
    have h2 : ((i : ℤ) + (SEP.length : ℕ)) = ((i + 2 : ℕ) : ℤ) := rfl
    simp only [Util.cutstring, hi, toInt_of_lt (show i < 2 ^ 31 by omega), ne_eq, hn,
      not_false_eq_true, if_true, h2]
    rw [toSizeT_of_lt (by omega), toSizeT_of_lt (by omega)]
  rw [hcut]
  constructor
  · have hd : line.drop (i + 2) = rest := by
      rw [← List.drop_drop, ← hrest]; rfl
    rw [hd, List.append_assoc, hrest, List.take_append_drop]
  · intro j hj
    exact hfirst j (by simpa using (List.length_take_le ..).trans_lt' hj)

/-- The map `kv` maps the names of the lines, and nothing else, each to the value
    in the first line with that name. -/
def MapsLines (lines : List Bytes) (kv : StringMap) : Prop :=
  ∀ name value, kv.find name = some value ↔
    ∃ front line back, lines = front ++ line :: back ∧ Field line name value ∧
      ∀ l ∈ front, ∀ v, ¬ Field l name v

namespace EndPoint

/-- `ep'` is `ep` with the lines of its header parsed. -/
structure HeaderParsed (ep ep' : EndPoint) : Prop where
  maps : MapsLines ep.req.requestHeader ep'.req.headerKv
  frame : ep' = { ep with req.headerKv := ep'.req.headerKv }

/-- **The map is never filled**: `ParseHttpRequestHeader` does what it is for only
    if there is no line to parse. -/
theorem headerParsed_iff (ep : EndPoint) (hkv : ep.req.headerKv = [])
    (hl : ∀ line ∈ ep.req.requestHeader, SEP <:+: line ∧ line.length < 2 ^ 31) :
    HeaderParsed ep ep.parseHttpRequestHeader ↔ ep.req.requestHeader = [] := by
  rw [parseHttpRequestHeader_eq]
  constructor
  · intro h
    by_contra hne
    obtain ⟨line, lines, hcons⟩ := List.exists_cons_of_ne_nil hne
    obtain ⟨hsep, hlen⟩ := hl line (by simp [hcons])
    have hf := (h.maps _ _).2 ⟨[], line, lines, hcons, cutstring_field hsep hlen, by simp⟩
    rw [hkv] at hf
    cases hf
  · intro hnil
    refine ⟨?_, rfl⟩
    intro name value
    simp [hnil, hkv, StringMap.find]

/-- An end point whose request has one header line. -/
def oneLine : EndPoint :=
  { sock := 4, req := { requestHeader := [str "A: b"] }, resp := { fd := 0, fileSize := 0 },
    stop := false }

theorem headerParsed_iff_oneLine :
    HeaderParsed oneLine oneLine.parseHttpRequestHeader ↔ oneLine.req.requestHeader = [] := by
  refine headerParsed_iff oneLine rfl ?_
  intro line hm
  cases List.mem_singleton.1 hm
  exact ⟨⟨str "A", str "b", by decide +kernel⟩, by decide +kernel⟩

/-- The name of the line is not in the map. -/
theorem oneLine_unmapped :
    Field (str "A: b") (str "A") (str "b") ∧
    oneLine.req.requestHeader = [str "A: b"] ∧ oneLine.req.headerKv = [] ∧
    oneLine.parseHttpRequestHeader.req.headerKv.find (str "A") = none ∧
    ¬ HeaderParsed oneLine oneLine.parseHttpRequestHeader := by
  have hf : Field (str "A: b") (str "A") (str "b") := by constructor <;> decide +kernel
  refine ⟨hf, rfl, rfl, rfl, ?_⟩
  intro h
  have hm := (h.maps (str "A") (str "b")).2 ⟨[], _, [], rfl, hf, by simp⟩
  rw [parseHttpRequestHeader_eq] at hm
  cases hm

end EndPoint

end MyHttpServer
