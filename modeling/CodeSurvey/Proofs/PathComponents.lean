import CodeSurvey.Path
import Mathlib.Data.List.Basic

/-!
# Components of paths

How the components of a path follow from its text, and what joining plain names does to them.

## Key results

- `segmentsFrom_append_slash`: a slash separates what stands before it from what stands behind
- `segments_intercalate`: names with slashes between them are found again
- `intercalate_segments`: a text is its segments with slashes between them
- `components_join` / `components_joinAll`: plain names go to the end of the components
- `joinAll_absolute`: below an absolute path plain names give one too
- `joinAll_inj`: different plain names below one path give different paths
- `relativeText_joinAll` / `intercalate_inj`: and different relative paths
- `append_slash_eq_iff`: when a text is put together in two ways with a slash between two parts
- `isPlainName_of_mem_components`: the names on a path are plain
-/

namespace CodeSurvey

/-- A name that a file or directory can have: it takes one step down and nothing else. -/
structure IsPlainName (name : String) : Prop where
  ne_empty : name ≠ ""
  ne_dot : name ≠ "."
  ne_dots : name ≠ ".."
  no_slash : '/' ∉ name.toList

namespace IsPlainName

theorem iff_and (name : String) :
    IsPlainName name ↔ name ≠ "" ∧ name ≠ "." ∧ name ≠ ".." ∧ '/' ∉ name.toList :=
  ⟨fun h => ⟨h.ne_empty, h.ne_dot, h.ne_dots, h.no_slash⟩, fun h => ⟨h.1, h.2.1, h.2.2.1, h.2.2.2⟩⟩

instance (name : String) : Decidable (IsPlainName name) :=
  decidable_of_iff _ (iff_and name).symm

end IsPlainName

namespace Path

/-! ## Segments -/

theorem segmentsFrom_eq_append (done : List String) (current text : List Char) :
    segmentsFrom done current text = done.reverse ++ segmentsFrom [] current text := by
  induction text generalizing done current with
  | nil => simp [segmentsFrom]
  | cons c rest ih =>
    rw [segmentsFrom, segmentsFrom]
    split
    · rw [ih, ih [String.ofList current.reverse]]
      simp
    · exact ih done (c :: current)

/-- A slash separates what stands before it from what stands behind. -/
theorem segmentsFrom_append_slash (current front back : List Char) :
    segmentsFrom [] current (front ++ '/' :: back) =
      segmentsFrom [] current front ++ segmentsFrom [] [] back := by
  induction front generalizing current with
  | nil =>
    -- the slash ends the current segment
    have hslash : segmentsFrom [] current ('/' :: back) =
        segmentsFrom [String.ofList current.reverse] [] back := if_pos rfl
    rw [List.nil_append, hslash, segmentsFrom_eq_append]
    rfl
  | cons c rest ih =>
    rw [List.cons_append, segmentsFrom, segmentsFrom]
    split
    · rw [segmentsFrom_eq_append, ih, segmentsFrom_eq_append [String.ofList current.reverse] []]
      rw [List.append_assoc]
    · exact ih (c :: current)

theorem segmentsFrom_of_no_slash {text : List Char} (current : List Char) (h : '/' ∉ text) :
    segmentsFrom [] current text = [String.ofList (current.reverse ++ text)] := by
  induction text generalizing current with
  | nil => simp [segmentsFrom]
  | cons c rest ih =>
    have hc : c ≠ '/' := fun heq => h (heq ▸ List.mem_cons_self)
    rw [segmentsFrom, if_neg hc, ih _ fun hmem => h (List.mem_cons_of_mem c hmem)]
    simp

/-- No segment holds a slash. -/
theorem no_slash_of_mem_segmentsFrom {current text : List Char} (h : '/' ∉ current) :
    ∀ segment ∈ segmentsFrom [] current text, '/' ∉ segment.toList := by
  induction text generalizing current with
  | nil =>
    intro segment hsegment
    obtain rfl := List.mem_singleton.1 hsegment
    simpa using h
  | cons c rest ih =>
    rw [segmentsFrom]
    split
    · rw [segmentsFrom_eq_append]
      intro segment hsegment
      rcases List.mem_append.1 hsegment with hsegment | hsegment
      · obtain rfl := List.mem_singleton.1 hsegment
        simpa using h
      · exact ih (by simp) segment hsegment
    · rename_i hc
      exact ih fun hmem => (List.mem_cons.1 hmem).elim (fun heq => hc heq.symm) h

theorem segments_append_slash (front back : String) :
    segments (front ++ "/" ++ back) = segments front ++ segments back := by
  have htext : (front ++ "/" ++ back).toList = front.toList ++ '/' :: back.toList := by simp
  rw [segments, htext, segmentsFrom_append_slash]
  rfl

theorem segments_of_no_slash {text : String} (h : '/' ∉ text.toList) : segments text = [text] := by
  rw [segments, segmentsFrom_of_no_slash [] h]
  simp

/-- Names with slashes between them are found again between the slashes. -/
theorem segments_intercalate {names : List String} (hne : names ≠ [])
    (h : ∀ name ∈ names, '/' ∉ name.toList) : segments ("/".intercalate names) = names := by
  induction names with
  | nil => exact absurd rfl hne
  | cons name rest ih =>
    have hname := segments_of_no_slash (h name List.mem_cons_self)
    cases rest with
    | nil => rw [String.intercalate_singleton, hname]
    | cons next rest =>
      rw [String.intercalate_cons_cons, segments_append_slash, hname,
        ih (List.cons_ne_nil _ _) fun other hother => h other (List.mem_cons_of_mem name hother)]
      rfl

theorem segmentsFrom_ne_nil (current text : List Char) : segmentsFrom [] current text ≠ [] := by
  induction text generalizing current with
  | nil => simp [segmentsFrom]
  | cons c rest ih =>
    rw [segmentsFrom]
    split
    · rw [segmentsFrom_eq_append]
      simp
    · exact ih (c :: current)

theorem intercalate_segmentsFrom (current text : List Char) :
    "/".intercalate (segmentsFrom [] current text) = String.ofList (current.reverse ++ text) := by
  induction text generalizing current with
  | nil => simp [segmentsFrom]
  | cons c rest ih =>
    rw [segmentsFrom]
    split
    · rename_i hslash
      subst hslash
      -- the slash comes back between the current segment and those of the rest
      rw [segmentsFrom_eq_append, List.reverse_singleton, List.singleton_append,
        String.intercalate_cons_of_ne_nil (segmentsFrom_ne_nil [] rest), ih]
      apply String.toList_inj.1
      simp
    · rw [ih]
      simp

/-- A text is its segments with slashes between them. -/
theorem intercalate_segments (text : String) : "/".intercalate (segments text) = text := by
  rw [segments, intercalate_segmentsFrom]
  simp

/-! ## Components -/

theorem componentOf?_of_isPlainName {name : String} (h : IsPlainName name) :
    componentOf? name = some (.name name) := by
  simp [componentOf?, h.ne_empty, h.ne_dot, h.ne_dots]

/-- The names on a path are plain. -/
theorem isPlainName_of_mem_components {path : Path} {name : String}
    (h : PathComponent.name name ∈ path.components) : IsPlainName name := by
  have hstep : PathComponent.name name ∈ (segments path.text).filterMap componentOf? := by
    rw [components] at h
    split at h
    · simpa using h
    · split at h
      · simpa using h
      · exact h
  -- a name is a segment that is neither empty nor made of dots
  obtain ⟨segment, hsegment, hname⟩ := List.mem_filterMap.1 hstep
  have hslash := no_slash_of_mem_segmentsFrom (by simp) segment hsegment
  rw [componentOf?] at hname
  split at hname
  · exact nomatch hname
  · rename_i hempty
    split at hname
    · exact nomatch hname
    · rename_i hdots
      obtain rfl := PathComponent.name.inj (Option.some.inj hname)
      simp only [Bool.or_eq_true, decide_eq_true_eq, not_or] at hempty
      exact ⟨hempty.1, hempty.2, hdots, hslash⟩

/-- A path whose text ends with a slash has an empty last segment. -/
private theorem segments_of_back? {text : String} (h : text.back? = some '/') :
    ∃ front : String, text = front ++ "/" ∧ segments text = segments front ++ [""] := by
  rw [String.back?_eq, List.getLast?_eq_some_iff] at h
  obtain ⟨front, hfront⟩ := h
  have htext : text = String.ofList front ++ "/" := by
    apply String.toList_inj.1
    simpa using hfront
  refine ⟨String.ofList front, htext, ?_⟩
  have hsegments := segments_append_slash (String.ofList front) ""
  rw [String.append_empty] at hsegments
  rw [htext, hsegments]
  rfl

/-- The segments of a joined path: those of the path, but for an empty one at the end, and the
name. -/
private theorem segments_join (path : Path) {name : String} (h : IsPlainName name) :
    ∃ front : List String, segments (path.join name).text = front ++ [name] ∧
      (segments path.text = front ∨ segments path.text = front ++ [""]) := by
  have hname := segments_of_no_slash h.no_slash
  have hfront : name.front? ≠ some '/' := by
    rw [String.front?_eq]
    intro heq
    exact h.no_slash (List.mem_of_mem_head? heq)
  rw [join, if_neg hfront]
  -- a slash is put between the two unless the path is empty or ends with one
  by_cases hempty : path.text = ""
  · refine ⟨[], ?_, Or.inr (by rw [hempty]; rfl)⟩
    rw [if_pos (by simp [hempty]), hempty]
    simpa using hname
  · by_cases hback : path.text.back? = some '/'
    · obtain ⟨front, htext, hsegments⟩ := segments_of_back? hback
      refine ⟨segments front, ?_, Or.inr hsegments⟩
      rw [if_pos (by simp [hback]), htext]
      simp only
      rw [segments_append_slash, hname]
    · refine ⟨segments path.text, ?_, Or.inl rfl⟩
      rw [if_neg (by simp [hempty, hback])]
      simp only
      rw [segments_append_slash, hname]

/-- A joined path starts at the root exactly if the path does. -/
private theorem isAbsolute_join (path : Path) {name : String} (h : IsPlainName name) :
    (path.join name).isAbsolute = path.isAbsolute := by
  have hname : name.toList.head? ≠ some '/' := fun heq =>
    h.no_slash (List.mem_of_mem_head? heq)
  rw [join, if_neg (by rwa [String.front?_eq])]
  by_cases hempty : path.text = ""
  · have hjoined : path.text ++ name = name := by rw [hempty, String.empty_append]
    rw [if_pos (by simp [hempty])]
    simp only [isAbsolute, hjoined]
    simp only [String.front?_eq, hempty]
    simp [hname]
  · -- what is appended stands behind a first character
    have hhead : ∀ text : String, (path.text ++ text).front? = path.text.front? := by
      intro text
      rw [String.front?_eq, String.front?_eq, String.toList_append]
      exact List.head?_append_of_ne_nil _ (fun hnil => hempty (String.toList_eq_nil_iff.1 hnil))
    split
    · simp only [isAbsolute, hhead]
    · simp only [isAbsolute, String.append_assoc, hhead]

/-- A plain name goes to the end of the components. -/
theorem components_join (path : Path) {name : String} (h : IsPlainName name) :
    (path.join name).components = path.components ++ [.name name] := by
  obtain ⟨front, hjoin, hpath⟩ := segments_join path h
  have hname := componentOf?_of_isPlainName h
  have hsteps : (front ++ [name]).filterMap componentOf? =
      (segments path.text).filterMap componentOf? ++ [.name name] := by
    rw [List.filterMap_append, List.filterMap_cons_some hname]
    rcases hpath with hpath | hpath
    · rw [hpath]
      rfl
    · rw [hpath, List.filterMap_append]
      simp [componentOf?]
  -- whether a path starts with a dot does not depend on the name, which is no dot
  have hdot : (front ++ [name]).head? = some "." ↔ (segments path.text).head? = some "." := by
    have hne := h.ne_dot
    cases front with
    | nil => rcases hpath with hpath | hpath <;> simp [hpath, hne]
    | cons first rest => rcases hpath with hpath | hpath <;> simp [hpath]
  simp only [components, hjoin, hsteps, isAbsolute_join path h, hdot]
  split
  · rfl
  · split <;> rfl

theorem joinAll_append (path : Path) (front back : List String) :
    path.joinAll (front ++ back) = (path.joinAll front).joinAll back :=
  List.foldl_append

theorem joinAll_concat (path : Path) (names : List String) (name : String) :
    path.joinAll (names ++ [name]) = (path.joinAll names).join name :=
  joinAll_append path names [name]

/-- Plain names go to the end of the components. -/
theorem components_joinAll (path : Path) {names : List String}
    (h : ∀ name ∈ names, IsPlainName name) :
    (path.joinAll names).components = path.components ++ names.map .name := by
  induction names generalizing path with
  | nil => simp [joinAll]
  | cons name rest ih =>
    have hstep : path.joinAll (name :: rest) = (path.join name).joinAll rest := rfl
    rw [hstep, ih _ fun other hother => h other (List.mem_cons_of_mem name hother),
      components_join path (h name List.mem_cons_self), List.append_assoc]
    rfl

/-! ## Absolute paths -/

theorem segments_absolute (names : List String) :
    segments (absolute names).text = "" :: segments ("/".intercalate names) := by
  have hslash := segments_append_slash "" ("/".intercalate names)
  rw [String.empty_append] at hslash
  rw [absolute, hslash]
  rfl

/-- A plain name goes to the end of an absolute path. -/
theorem join_absolute {names : List String} {name : String}
    (hplain : ∀ step ∈ names, IsPlainName step) (h : IsPlainName name) :
    (absolute names).join name = absolute (names ++ [name]) := by
  have hfront : name.front? ≠ some '/' := by
    rw [String.front?_eq]
    exact fun heq => h.no_slash (List.mem_of_mem_head? heq)
  rw [join, if_neg hfront]
  by_cases hne : names = []
  · subst hne
    have hback : (absolute []).text.back? = some '/' := by
      rw [String.back?_eq, absolute, String.intercalate_nil, String.append_empty]
      rfl
    rw [if_pos (by simp [hback]), List.nil_append, absolute, absolute, String.intercalate_nil,
      String.intercalate_singleton, String.append_empty]
  · have hempty : (absolute names).text ≠ "" := by simp [absolute]
    have hback : (absolute names).text.back? ≠ some '/' := fun heq => by
      -- otherwise the last name would be empty
      obtain ⟨front, -, hsegments⟩ := segments_of_back? heq
      rw [segments_absolute,
        segments_intercalate hne fun step hstep => (hplain step hstep).no_slash] at hsegments
      have hlast := congrArg List.getLast? hsegments
      rw [List.getLast?_concat, List.getLast?_cons_of_ne_nil hne] at hlast
      exact (hplain "" (List.mem_of_getLast? hlast)).ne_empty rfl
    rw [if_neg (by simp [hempty, hback]), absolute, absolute,
      String.intercalate_append_of_ne_nil hne (List.cons_ne_nil _ _),
      String.intercalate_singleton]
    simp only [String.append_assoc]

/-- Plain names go to the end of an absolute path. -/
theorem joinAll_absolute {front names : List String} (hfront : ∀ step ∈ front, IsPlainName step)
    (hnames : ∀ step ∈ names, IsPlainName step) :
    (absolute front).joinAll names = absolute (front ++ names) := by
  induction names generalizing front with
  | nil => rw [List.append_nil]; rfl
  | cons name rest ih =>
    rw [List.forall_mem_cons] at hnames
    have hstep : (absolute front).joinAll (name :: rest) =
        ((absolute front).join name).joinAll rest := rfl
    rw [hstep, join_absolute hfront hnames.1, ih _ hnames.2, List.append_assoc]
    · rfl
    · simpa [or_imp, forall_and] using ⟨hfront, hnames.1⟩

/-- Different plain names below one path give different paths. -/
theorem joinAll_inj (path : Path) {a b : List String} (ha : ∀ name ∈ a, IsPlainName name)
    (hb : ∀ name ∈ b, IsPlainName name) (h : path.joinAll a = path.joinAll b) : a = b := by
  have hcomponents := congrArg components h
  rw [components_joinAll path ha, components_joinAll path hb] at hcomponents
  have hmap := List.append_cancel_left hcomponents
  exact List.map_injective_iff.2 (fun _ _ heq => PathComponent.name.inj heq) hmap

/-! ## Relative paths -/

/-- Different plain names make different texts with slashes between them. -/
theorem intercalate_inj {a b : List String} (ha : ∀ name ∈ a, IsPlainName name)
    (hb : ∀ name ∈ b, IsPlainName name) (h : "/".intercalate a = "/".intercalate b) : a = b := by
  -- no names and one empty name make the same text, but an empty name is not plain
  have hnil : ∀ {names : List String}, (∀ name ∈ names, IsPlainName name) →
      "/".intercalate names = "" → names = [] := fun {names} hplain hempty => by
    by_contra hne
    have hsegments := segments_intercalate hne fun name hname => (hplain name hname).no_slash
    rw [hempty] at hsegments
    have hmem : "" ∈ names := by
      rw [← hsegments]
      exact List.mem_singleton_self ""
    exact (hplain "" hmem).ne_empty rfl
  by_cases hempty : "/".intercalate a = ""
  · rw [hnil ha hempty, hnil hb (h ▸ hempty)]
  · have hane : a ≠ [] := fun heq => hempty (by rw [heq, String.intercalate_nil])
    have hbne : b ≠ [] := fun heq => hempty (by rw [h, heq, String.intercalate_nil])
    rw [← segments_intercalate hane fun name hname => (ha name hname).no_slash, h,
      segments_intercalate hbne fun name hname => (hb name hname).no_slash]

/-- Below a path plain names are read with slashes between them. -/
theorem relativeText_joinAll (root : Path) {names : List String}
    (h : ∀ name ∈ names, IsPlainName name) :
    root.relativeText (root.joinAll names) = "/".intercalate names := by
  rw [relativeText, below?, components_joinAll root h, dropSteps_append]
  simp only [List.map_map]
  exact congrArg _ (List.map_id names)

/-- A text that starts with another one and a slash behind it ends like the other one, or the slash
is followed by what it goes on with. -/
private theorem eq_or_exists_middle {a b c d : String} {between : List Char}
    (hfront : c.toList = a.toList ++ between)
    (hback : '/' :: b.toList = between ++ '/' :: d.toList) :
    (a = c ∧ b = d) ∨ ∃ middle, c = a ++ "/" ++ middle ∧ b = middle ++ "/" ++ d := by
  cases between with
  | nil =>
    rw [List.append_nil] at hfront
    exact .inl ⟨(String.toList_inj.1 hfront).symm, String.toList_inj.1 (List.cons.inj hback).2⟩
  | cons first rest =>
    obtain ⟨rfl, hrest⟩ := List.cons.inj hback
    refine .inr ⟨String.ofList rest, String.toList_inj.1 ?_, String.toList_inj.1 ?_⟩
    · simpa using hfront
    · simpa using hrest

/-- Two pairs of texts with a slash between them make one text if the pairs are the same, or if the
slash of one pair stands in a text of the other pair. -/
theorem append_slash_eq_iff {a b c d : String} :
    a ++ "/" ++ b = c ++ "/" ++ d ↔ (a = c ∧ b = d) ∨
      (∃ middle, c = a ++ "/" ++ middle ∧ b = middle ++ "/" ++ d) ∨
      (∃ middle, a = c ++ "/" ++ middle ∧ d = middle ++ "/" ++ b) := by
  constructor
  · intro h
    have hchars : a.toList ++ '/' :: b.toList = c.toList ++ '/' :: d.toList := by
      simpa using congrArg String.toList h
    -- one slash is the other one, or stands behind it
    rcases List.append_eq_append_iff.1 hchars with
      ⟨between, hfront, hback⟩ | ⟨between, hfront, hback⟩
    · exact (eq_or_exists_middle hfront hback).imp_right .inl
    · rcases eq_or_exists_middle hfront hback with ⟨rfl, rfl⟩ | hmiddle
      · exact .inl ⟨rfl, rfl⟩
      · exact .inr (.inr hmiddle)
  · rintro (⟨rfl, rfl⟩ | ⟨middle, rfl, rfl⟩ | ⟨middle, rfl, rfl⟩)
    · rfl
    · simp only [String.append_assoc]
    · simp only [String.append_assoc]
end Path

end CodeSurvey
