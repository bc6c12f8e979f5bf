/-
  The media type of a resource.

  `BuildHttpResponse` takes as suffix what is behind the last `'.'` of the whole
  path, the names of the directories included, and `ContentTypeTable` answers with
  a suffix where it knows none.

  * `suffixOf_dot`, `suffixOf_parent`: where the suffix of a path comes from;
  * `typedByName_iff`: when the type is one, and that of the last segment alone.
-/
import Mathlib.Data.List.DropRight
import MyHttpServer.Proof.Response

namespace MyHttpServer

/-! ## The last segment -/

/-- What is behind the last `'/'` of a path. -/
def lastSegment (p : Bytes) : Bytes := p.rtakeWhile (· ≠ SLASH)

theorem lastSegment_suffix (p : Bytes) : lastSegment p <:+ p := List.rtakeWhile_suffix _ _

theorem slash_notMem_lastSegment (p : Bytes) : SLASH ∉ lastSegment p := by
  intro h
  simpa using List.mem_rtakeWhile_imp h

/-- It is the longest end of the path without a slash. -/
theorem suffix_lastSegment {p q : Bytes} (h : q <:+ p) (hq : SLASH ∉ q) : q <:+ lastSegment p := by
  obtain ⟨front, rfl⟩ := h
  have hall : ∀ c ∈ q.reverse, (decide (c ≠ SLASH)) = true := by
    intro c hc
    simpa using fun h : c = SLASH => hq (h ▸ List.mem_reverse.1 hc)
  rw [lastSegment, List.rtakeWhile, List.reverse_append, List.takeWhile_append_of_pos hall,
    List.reverse_append, List.reverse_reverse]
  exact List.suffix_append _ _

theorem lastSegment_slash {name : Bytes} (h : SLASH ∉ name) (front : Bytes) :
    lastSegment (front ++ SLASH :: name) = name := by
  have hall : ∀ c ∈ name.reverse, (decide (c ≠ SLASH)) = true := by
    intro c hc
    simpa using fun hs : c = SLASH => h (hs ▸ List.mem_reverse.1 hc)
  rw [lastSegment, List.rtakeWhile, List.reverse_append, List.reverse_cons, List.append_assoc,
    List.takeWhile_append_of_pos hall]
  simp

/-! ## The suffix -/

theorem idxOf?_append {l r : Bytes} {c : UInt8} (h : c ∉ l) :
    (l ++ c :: r).idxOf? c = some l.length := by
  induction l with
  | nil => simp [List.idxOf?_cons]
  | cons d l ih =>
    rw [List.mem_cons, not_or] at h
    simp [List.idxOf?_cons, Ne.symm h.1, ih h.2]

namespace EndPoint

/-- The suffix is what the last `'.'` starts. -/
theorem suffixOf_append {front ext : Bytes} (h : DOT ∉ ext) :
    suffixOf (front ++ DOT :: ext) = DOT :: ext := by
  have hpos : rfindDot (front ++ DOT :: ext) = some front.length := by
    rw [rfindDot, List.reverse_append, List.reverse_cons, List.append_assoc, List.singleton_append,
      idxOf?_append (by simpa using h), Option.map_some, List.length_reverse]
    simp
  rw [suffixOf, hpos]
  exact List.drop_left

theorem exists_last_dot {p : Bytes} (h : DOT ∈ p) :
    ∃ front ext, p = front ++ DOT :: ext ∧ DOT ∉ ext := by
  obtain ⟨l, r, hr, hl⟩ := List.eq_append_cons_of_mem (List.mem_reverse.2 h)
  refine ⟨r.reverse, l.reverse, ?_, by simpa using hl⟩
  rw [← List.reverse_reverse p, hr]
  simp

/-- A dot in the last segment decides. -/
theorem suffixOf_dot {p : Bytes} (h : DOT ∈ lastSegment p) :
    suffixOf p = suffixOf (lastSegment p) := by
  obtain ⟨front, ext, he, hext⟩ := exists_last_dot h
  obtain ⟨dir, hdir⟩ := lastSegment_suffix p
  rw [he, suffixOf_append hext, ← hdir, he, ← List.append_assoc, suffixOf_append hext]

/-- Otherwise a dot in front of it does, and the suffix has a slash in it. -/
theorem suffixOf_parent {p : Bytes} (h : DOT ∈ p) (hlast : DOT ∉ lastSegment p) :
    SLASH ∈ suffixOf p := by
  obtain ⟨front, ext, rfl, hext⟩ := exists_last_dot h
  rw [suffixOf_append hext]
  by_contra hs
  exact hlast ((suffix_lastSegment (List.suffix_append _ _) hs).subset List.mem_cons_self)

/-! ## The paths that are resolved -/

/-- A call of `BuildHttpResponse` can find a resource at `path`, and then gives it
    the suffix `suffix`. -/
def Resolves (path suffix : Bytes) : Prop :=
  ∃ (σ : Type) (M : Machine σ) (ep ep' : EndPoint) (os os' : Os σ),
    locate M ep os = .ok (ep', os') ∧ ep'.req.path = path ∧ ep'.resp.suffix = suffix

theorem ends_append {p q : Bytes} {c : UInt8} (h : q.getLast? = some c) (hc : c ≠ SLASH) :
    p ++ q ≠ [] ∧ (p ++ q).getLast? ≠ some SLASH := by
  have hq : q ≠ [] := by
    rintro rfl
    cases h
  refine ⟨List.append_ne_nil_of_right_ne_nil p hq, ?_⟩
  rw [List.getLast?_append, h]
  simpa using hc

theorem homePage_getLast? : HOME_PAGE.getLast? = some 108 ∧ (108 : UInt8) ≠ SLASH := by
  decide +kernel

theorem servedPath_ends (path : Bytes) :
    servedPath path ≠ [] ∧ (servedPath path).getLast? ≠ some SLASH := by
  have hroot : WWW_ROOT ≠ [] := by decide +kernel
  rw [servedPath]
  by_cases h : (WWW_ROOT ++ path).getLast? = some SLASH
  · rw [if_pos h]; exact ends_append homePage_getLast?.1 homePage_getLast?.2
  · rw [if_neg h]; exact ⟨List.append_ne_nil_of_left_ne_nil hroot path, h⟩

/-- A path that is resolved has a last segment, and its suffix comes from the
    whole of it. -/
theorem Resolves.spec {path suffix : Bytes} (h : Resolves path suffix) :
    suffix = suffixOf path ∧ lastSegment path ≠ [] := by
  have hlast {p : Bytes} (hp : p ≠ [] ∧ p.getLast? ≠ some SLASH) : lastSegment p ≠ [] := by
    intro hnil
    have hs := List.rtakeWhile_eq_nil_iff.1 hnil hp.1
    rw [decide_eq_true_eq, not_not] at hs
    exact hp.2 (by rw [List.getLast?_eq_getLast_of_ne_nil hp.1, hs])
  obtain ⟨σ, M, ep, ep', os, os', he, rfl, rfl⟩ := h
  rcases locate_cases M ep os with ⟨-, hl⟩ | ⟨-, -, hl⟩ | ⟨st, -, -, -, hl⟩ | ⟨st, -, -, -, hl⟩ <;>
    rw [hl] at he <;> cases he
  · exact ⟨rfl, hlast (ends_append homePage_getLast?.1 homePage_getLast?.2)⟩
  · exact ⟨rfl, hlast (servedPath_ends _)⟩

/-- Whatever is behind `wwwroot` can be resolved, unless it ends with a slash. -/
theorem resolves_root {path : Bytes} (h : (WWW_ROOT ++ path).getLast? ≠ some SLASH) :
    Resolves (WWW_ROOT ++ path) (suffixOf (WWW_ROOT ++ path)) := by
  have hserved : servedPath path = WWW_ROOT ++ path := by rw [servedPath, if_neg h]
  let M : Machine Unit := { lookup _ _ := some (textFile []), program _ _ := none }
  let ep : EndPoint :=
    { sock := 4, req := { path }, resp := { fd := 0, fileSize := 0 }, stop := false }
  let os : Os Unit := { disk := (), fds := [], refusals := [], sigchld := .ignore }
  have hl := @locate_file _ M ep os ne_OK.2.2.symm (textFile []) rfl (by decide +kernel)
  have hpath : ep.req.path = path := rfl
  rw [hpath, hserved] at hl
  exact ⟨Unit, M, ep, _, os, _, hl, rfl, rfl⟩

/-- A name without a dot also stands below a directory with one, where its suffix
    has a slash in it. -/
theorem exists_dotted_parent {name : Bytes} (hne : name ≠ []) (hslash : SLASH ∉ name)
    (hdot : DOT ∉ name) :
    ∃ path, Resolves path (suffixOf path) ∧ lastSegment path = name ∧ SLASH ∈ suffixOf path := by
  have hname : lastSegment (WWW_ROOT ++ (str "/d.d" ++ SLASH :: name)) = name := by
    rw [← List.append_assoc]
    exact lastSegment_slash hslash _
  set path := WWW_ROOT ++ (str "/d.d" ++ SLASH :: name)
  have hends : path.getLast? ≠ some SLASH := by
    obtain ⟨dir, hdir⟩ := lastSegment_suffix path
    rw [← hdir, hname, List.getLast?_append_of_ne_nil _ hne]
    exact fun hs => hslash (List.mem_of_getLast? hs)
  have hmem : DOT ∈ path :=
    List.mem_append_right _ (List.mem_append_left _ (by decide +kernel))
  exact ⟨path, resolves_root hends, hname, suffixOf_parent hmem (hname ▸ hdot)⟩

end EndPoint

/-! ## Media types -/

/-- `type/subtype` -/
def MediaType (t : Bytes) : Prop :=
  ∃ type subtype, t = type ++ SLASH :: subtype ∧ type ≠ [] ∧ subtype ≠ [] ∧
    SLASH ∉ type ∧ SLASH ∉ subtype

/-- The suffixes that `ContentTypeTable` knows. -/
def knownSuffixes : List Bytes := contentTypes.map Prod.fst

theorem contentType_known {suffix : Bytes} (h : suffix ∈ knownSuffixes) :
    SLASH ∉ suffix ∧ MediaType (contentTypeTable suffix) := by
  have hknown : knownSuffixes = [str ".html", str ".txt", str ".ppt", str ".js", str ".xml"] := rfl
  rw [hknown] at h
  simp only [List.mem_cons, List.not_mem_nil, or_false] at h
  rcases h with rfl | rfl | rfl | rfl | rfl
  · exact ⟨by decide +kernel, str "text", str "html", by decide +kernel⟩
  · exact ⟨by decide +kernel, str "text", str "plain", by decide +kernel⟩
  · exact ⟨by decide +kernel, str "application", str "vnd.ms-powerpoint", by decide +kernel⟩
  · exact ⟨by decide +kernel, str "application", str "x-javascript", by decide +kernel⟩
  · exact ⟨by decide +kernel, str "application", str "rss+xml", by decide +kernel⟩

theorem contentType_unknown {suffix : Bytes} (h : suffix ∉ knownSuffixes) :
    contentTypeTable suffix = DOT_HTML := by
  have hl : contentTypes.lookup suffix = none := by
    rw [List.lookup_eq_none_iff]
    intro e he
    rw [bne_iff_ne]
    rintro rfl
    exact h (List.mem_map_of_mem he)
  rw [contentTypeTable, hl, Option.getD_none]

theorem not_mediaType_html : ¬ MediaType DOT_HTML := by
  rintro ⟨type, subtype, h, -⟩
  have hs : SLASH ∉ DOT_HTML := by decide +kernel
  rw [h] at hs
  exact hs (by simp)

/-- The type that is given to the resource at `path` is one, is that of every
    resource with the same last segment, and is that of a page for a last segment
    without a dot. -/
structure TypedByName (path suffix : Bytes) : Prop where
  media : MediaType (contentTypeTable suffix)
  byName : ∀ path' suffix', EndPoint.Resolves path' suffix' →
    lastSegment path' = lastSegment path → contentTypeTable suffix' = contentTypeTable suffix
  dotless : DOT ∉ lastSegment path → ∀ path' suffix', EndPoint.Resolves path' suffix' →
    DOT_HTML <:+ lastSegment path' → contentTypeTable suffix' = contentTypeTable suffix

/-- **A resource is typed by its name exactly if its last segment has a suffix of
    its own, which `ContentTypeTable` knows.** -/
theorem typedByName_iff {path suffix : Bytes} (h : EndPoint.Resolves path suffix) :
    TypedByName path suffix ↔
      DOT ∈ lastSegment path ∧ EndPoint.suffixOf (lastSegment path) ∈ knownSuffixes := by
  obtain ⟨rfl, hne⟩ := h.spec
  constructor
  · rintro ⟨hmedia, hname, -⟩
    have hknown : EndPoint.suffixOf path ∈ knownSuffixes := by
      by_contra hu
      rw [contentType_unknown hu] at hmedia
      exact not_mediaType_html hmedia
    have hdot : DOT ∈ lastSegment path := by
      by_contra hlast
      obtain ⟨path', h', hname', hparent⟩ :=
        EndPoint.exists_dotted_parent hne (slash_notMem_lastSegment path) hlast
      have htype := hname path' _ h' hname'
      rw [contentType_unknown fun hk => (contentType_known hk).1 hparent] at htype
      rw [← htype] at hmedia
      exact not_mediaType_html hmedia
    exact ⟨hdot, EndPoint.suffixOf_dot hdot ▸ hknown⟩
  · rintro ⟨hdot, hknown⟩
    rw [← EndPoint.suffixOf_dot hdot] at hknown
    refine ⟨(contentType_known hknown).2, ?_, fun hno => absurd hdot hno⟩
    intro path' suffix' h' hlast
    obtain ⟨rfl, -⟩ := h'.spec
    rw [EndPoint.suffixOf_dot hdot, EndPoint.suffixOf_dot (hlast ▸ hdot), hlast]

theorem typedByName_iff_notes :
    TypedByName (str "wwwroot/v1.2/notes.txt") (str ".txt") := by
  have h := @EndPoint.resolves_root (str "/v1.2/notes.txt") (by decide +kernel)
  have hs : EndPoint.suffixOf (WWW_ROOT ++ str "/v1.2/notes.txt") = str ".txt" := by
    decide +kernel
  rw [hs] at h
  exact (typedByName_iff h).2 (by decide +kernel)

/-- A suffix that is not in the table. -/
theorem image_untyped :
    EndPoint.Resolves (str "wwwroot/logo.png") (str ".png") ∧
      contentTypeTable (str ".png") = str ".html" ∧
      ¬ TypedByName (str "wwwroot/logo.png") (str ".png") := by
  have h := @EndPoint.resolves_root (str "/logo.png") (by decide +kernel)
  have hs : EndPoint.suffixOf (WWW_ROOT ++ str "/logo.png") = str ".png" := by decide +kernel
  rw [hs] at h
  refine ⟨h, by decide +kernel, ?_⟩
  rintro ⟨hmedia, -, -⟩
  rw [contentType_unknown (by decide +kernel)] at hmedia
  exact not_mediaType_html hmedia

end MyHttpServer
