import CodeSurvey.Pattern.Source
import CodeSurvey.Proofs.PatternLanguage

/-!
# What headers are made of

The parts of a declaration and of the three headers: white space, the name that is kept, and what
follows the name up to the brace that opens the body.

## Key results

- `describes_declaration_iff`: a keyword, white space and a name
- `exists_parts_of_functionHeader` / `exists_parts_of_classHeader`: a declaration and what follows
- `describes_methodHeader_iff`: a line break, white space, a name and what follows it
-/

namespace CodeSurvey.Pattern

open Text (isBlank)

/-! ## White space and names -/

/-- White space, possibly none. -/
def AllBlank (text : List Char) : Prop :=
  ∀ c ∈ text, isBlank c = true

/-- White space. -/
def IsGap (text : List Char) : Prop :=
  AllBlank text ∧ text ≠ []

/-- A name: an ASCII letter, an underscore or a dollar sign, and any number of these and ASCII
digits. -/
def IsName (text : List Char) : Prop :=
  ∃ c rest, text = c :: rest ∧ startsName c = true ∧ ∀ d ∈ rest, continuesName d = true

theorem continuesName_of_startsName {c : Char} (h : startsName c = true) :
    continuesName c = true := by
  simp only [startsName, continuesName, Char.isAlphanum, Bool.or_eq_true] at h ⊢
  rcases h with (h | h) | h
  · exact .inl (.inl (.inl h))
  · exact .inl (.inr h)
  · exact .inr h

theorem IsName.all {text : List Char} (h : IsName text) : ∀ c ∈ text, continuesName c = true := by
  obtain ⟨c, rest, rfl, hc, hrest⟩ := h
  exact List.forall_mem_cons.2 ⟨continuesName_of_startsName hc, hrest⟩

theorem toNat_of_isAlphanum {c : Char} (h : c.isAlphanum = true) :
    48 ≤ c.toNat ∧ c.toNat ≤ 122 := by
  -- the three ranges of letters and digits
  have hranges : ((decide (65 ≤ c.val ∧ c.val ≤ 90) ||
      decide (97 ≤ c.val) && decide (c.val ≤ 122)) ||
      decide (48 ≤ c.val) && decide (c.val ≤ 57)) = true := h
  simp only [Bool.or_eq_true, Bool.and_eq_true, decide_eq_true_eq,
    UInt32.le_iff_toNat_le] at hranges
  rcases hranges with (hupper | hlower) | hdigit
  · exact ⟨Nat.le_trans (by decide) hupper.1, Nat.le_trans hupper.2 (by decide)⟩
  · exact ⟨Nat.le_trans (by decide) hlower.1, Nat.le_trans hlower.2 (by decide)⟩
  · exact ⟨Nat.le_trans (by decide) hdigit.1, Nat.le_trans hdigit.2 (by decide)⟩

/-- No character of a name is white space. -/
theorem isBlank_of_continuesName {c : Char} (h : continuesName c = true) : isBlank c = false := by
  have hrange : 33 ≤ c.toNat ∧ c.toNat ≤ 122 := by
    simp only [continuesName, Bool.or_eq_true, beq_iff_eq] at h
    rcases h with (halphanum | rfl) | rfl
    · have hrange := toNat_of_isAlphanum halphanum
      omega
    · decide
    · decide
  simp only [isBlank, Bool.or_eq_false_iff, Bool.and_eq_false_iff, decide_eq_false_iff_not,
    beq_eq_false_iff_ne]
  omega

theorem isBlank_of_isName {text : List Char} (h : IsName text) : ∀ c ∈ text, isBlank c = false :=
  fun c hc => isBlank_of_continuesName (h.all c hc)

/-- No name goes on with white space. -/
theorem continuesName_of_allBlank {text : List Char} (h : AllBlank text) :
    ∀ c ∈ text, continuesName c = false := by
  intro c hc
  by_contra hname
  have hblank := isBlank_of_continuesName (by simpa using hname)
  rw [h c hc] at hblank
  cases hblank

theorem AllBlank.isGap_break {indent : List Char} (h : AllBlank indent) : IsGap ('\n' :: indent) :=
  ⟨List.forall_mem_cons.2 ⟨by decide, h⟩, List.cons_ne_nil _ _⟩

theorem IsName.ne_nil {text : List Char} (h : IsName text) : text ≠ [] := by
  obtain ⟨c, rest, rfl, -⟩ := h
  exact List.cons_ne_nil c rest

theorem AllBlank.not_mem {text : List Char} (h : AllBlank text) {c : Char}
    (hc : isBlank c = false) : c ∉ text := by
  intro hmem
  rw [h c hmem] at hc
  cases hc

theorem IsName.not_mem {text : List Char} (h : IsName text) {c : Char}
    (hc : continuesName c = false) : c ∉ text := by
  intro hmem
  rw [h.all c hmem] at hc
  cases hc

/-- White space around a name holds no other character. -/
theorem not_mem_around_name {before name behind : List Char} (hbefore : AllBlank before)
    (hname : IsName name) (hbehind : AllBlank behind) {c : Char} (hblank : isBlank c = false)
    (hcontinues : continuesName c = false) : c ∉ before ++ (name ++ behind) := by
  rw [List.mem_append, List.mem_append, not_or, not_or]
  exact ⟨hbefore.not_mem hblank, hname.not_mem hcontinues, hbehind.not_mem hblank⟩

/-! ## Parts of patterns -/

theorem describes_gap_iff {stretch : List Char} {kept : Option (Nat × Nat)} :
    gap.Describes stretch kept ↔ IsGap stretch ∧ kept = none := by
  constructor
  · rintro ⟨front, back, here, there, rfl, ⟨⟨c, rfl, hc⟩, rfl⟩, ⟨hback, rfl⟩, rfl⟩
    exact ⟨⟨List.forall_mem_cons.2 ⟨hc, hback⟩, List.cons_ne_nil _ _⟩, rfl⟩
  · rintro ⟨⟨hblank, hne⟩, rfl⟩
    obtain ⟨c, rest, rfl⟩ := List.exists_cons_of_ne_nil hne
    have hall := List.forall_mem_cons.1 hblank
    exact ⟨[c], rest, none, none, rfl, ⟨⟨c, rfl, hall.1⟩, rfl⟩, ⟨hall.2, rfl⟩, rfl⟩

theorem describes_name_iff {stretch : List Char} {kept : Option (Nat × Nat)} :
    name.Describes stretch kept ↔ IsName stretch ∧ kept = none := by
  constructor
  · rintro ⟨front, back, here, there, rfl, ⟨⟨c, rfl, hc⟩, rfl⟩, ⟨hback, rfl⟩, rfl⟩
    exact ⟨⟨c, back, rfl, hc, hback⟩, rfl⟩
  · rintro ⟨⟨c, rest, rfl, hc, hrest⟩, rfl⟩
    exact ⟨[c], rest, none, none, rfl, ⟨⟨c, rfl, hc⟩, rfl⟩, ⟨hrest, rfl⟩, rfl⟩

theorem describes_char_iff {c : Char} {stretch : List Char} {kept : Option (Nat × Nat)} :
    (char c).Describes stretch kept ↔ stretch = [c] ∧ kept = none := by
  constructor
  · rintro ⟨⟨d, rfl, hd⟩, rfl⟩
    exact ⟨by rw [beq_iff_eq.1 hd], rfl⟩
  · rintro ⟨rfl, rfl⟩
    exact ⟨⟨c, rfl, beq_self_eq_true c⟩, rfl⟩

theorem describes_capture_name_iff {stretch : List Char} {kept : Option (Nat × Nat)} :
    (capture name).Describes stretch kept ↔ IsName stretch ∧ kept = some (0, stretch.length) := by
  constructor
  · rintro ⟨within, hinner, rfl⟩
    obtain ⟨hname, rfl⟩ := describes_name_iff.1 hinner
    exact ⟨hname, rfl⟩
  · rintro ⟨hname, rfl⟩
    exact ⟨none, describes_name_iff.2 ⟨hname, rfl⟩, rfl⟩

/-- A stretch of text of which a name is kept. -/
structure KeepsName (stretch : List Char) (kept : Option (Nat × Nat))
    (lead name trail : List Char) : Prop where
  stretch_eq : stretch = lead ++ (name ++ trail)
  isName : IsName name
  kept_eq : kept = some (lead.length, lead.length + name.length)

theorem KeepsName.group_eq {stretch lead name trail : List Char} {kept : Option (Nat × Nat)}
    (h : KeepsName stretch kept lead name trail) :
    (kept.map fun span => String.ofList ((stretch.take span.2).drop span.1)) =
      some (String.ofList name) := by
  rw [h.kept_eq, h.stretch_eq, Option.map_some, List.take_length_add_append,
    List.drop_left, List.take_left]

theorem KeepsName.append {stretch lead name trail : List Char} {kept : Option (Nat × Nat)}
    (h : KeepsName stretch kept lead name []) : KeepsName (stretch ++ trail) kept lead name trail :=
  ⟨by simp [h.stretch_eq], h.isName, h.kept_eq⟩

theorem KeepsName.stretch_ne_nil {stretch lead name trail : List Char}
    {kept : Option (Nat × Nat)} (h : KeepsName stretch kept lead name trail) : stretch ≠ [] := by
  simp [h.stretch_eq, h.isName.ne_nil]

/-- A declaration keeps the name behind the keyword. -/
theorem describes_declaration_iff {keyword stretch : List Char} {kept : Option (Nat × Nat)} :
    (declaration (word keyword)).Describes stretch kept ↔
      ∃ space name, IsGap space ∧ KeepsName stretch kept (keyword ++ space) name [] := by
  constructor
  · rintro ⟨_, _, _, _, rfl, ⟨rfl, rfl⟩, ⟨space, name, _, _, rfl, hspace, hname, rfl⟩, rfl⟩
    obtain ⟨hgap, rfl⟩ := describes_gap_iff.1 hspace
    obtain ⟨hisName, rfl⟩ := describes_capture_name_iff.1 hname
    exact ⟨space, name, hgap, by simp, hisName, by simp [Nat.add_assoc]⟩
  · rintro ⟨space, name, hgap, rfl, hname, rfl⟩
    refine ⟨keyword, space ++ name, none, _, by simp, ⟨rfl, rfl⟩, ⟨space, name, none, _, rfl,
      describes_gap_iff.2 ⟨hgap, rfl⟩, describes_capture_name_iff.2 ⟨hname, rfl⟩, rfl⟩, ?_⟩
    simp [Nat.add_assoc]

/-! ## The rest of a header -/

/-- Parameters in parentheses and an opening brace, with white space around the parentheses. The
parameters hold no character `stop`. -/
def TakesParameters (stop : Char) (text : List Char) : Prop :=
  ∃ space parameters space', AllBlank space ∧ stop ∉ parameters ∧ AllBlank space' ∧
    text = space ++ '(' :: (parameters ++ ')' :: (space' ++ ['\x7b']))

/-- An opening brace, with white space in front of it and perhaps the name of a class that is
extended. -/
def MayExtend (text : List Char) : Prop :=
  ∃ space heritage space', AllBlank space ∧ AllBlank space' ∧
    text = space ++ (heritage ++ (space' ++ ['\x7b'])) ∧
    (heritage = [] ∨ ∃ space base, IsGap space ∧ IsName base ∧
      heritage = "extends".toList ++ (space ++ base))

theorem describes_takesParameters_iff {stop : Char} {stretch : List Char}
    {kept : Option (Nat × Nat)} :
    (inOrder [blanks, char '(', many (· != stop), char ')', blanks, char '\x7b']).Describes
        stretch kept ↔ TakesParameters stop stretch ∧ kept = none := by
  have hmany : ∀ text : List Char, (∀ c ∈ text, (c != stop) = true) ↔ stop ∉ text := by
    intro text
    simp only [bne_iff_ne]
    exact ⟨fun h hmem => h stop hmem rfl, fun h c hc heq => h (heq ▸ hc)⟩
  constructor
  -- part by part: white space, a parenthesis, parameters, a parenthesis, white space, the brace
  · rintro ⟨space, _, _, _, rfl, ⟨hspace, rfl⟩, ⟨_, _, _, _, rfl, hopen, ⟨parameters, _, _, _, rfl,
      ⟨hparameters, rfl⟩, ⟨_, _, _, _, rfl, hclose, ⟨space', _, _, _, rfl, ⟨hspace', rfl⟩, hbrace,
      rfl⟩, rfl⟩, rfl⟩, rfl⟩, rfl⟩
    obtain ⟨rfl, rfl⟩ := describes_char_iff.1 hopen
    obtain ⟨rfl, rfl⟩ := describes_char_iff.1 hclose
    obtain ⟨rfl, rfl⟩ := describes_char_iff.1 hbrace
    exact ⟨⟨space, parameters, space', hspace, (hmany _).1 hparameters, hspace', rfl⟩, rfl⟩
  · rintro ⟨⟨space, parameters, space', hspace, hparameters, hspace', rfl⟩, rfl⟩
    exact ⟨space, _, none, none, rfl, ⟨hspace, rfl⟩, ⟨['('], _, none, none, rfl,
      describes_char_iff.2 ⟨rfl, rfl⟩, ⟨parameters, _, none, none, rfl,
      ⟨(hmany _).2 hparameters, rfl⟩, ⟨[')'], _, none, none, rfl, describes_char_iff.2 ⟨rfl, rfl⟩,
      ⟨space', ['\x7b'], none, none, rfl, ⟨hspace', rfl⟩, describes_char_iff.2 ⟨rfl, rfl⟩, rfl⟩,
      rfl⟩, rfl⟩, rfl⟩, rfl⟩

theorem mayExtend_of_describes {stretch : List Char} {kept : Option (Nat × Nat)}
    (h : (inOrder [blanks, optional (inOrder [word "extends".toList, gap, name]), blanks,
      char '\x7b']).Describes stretch kept) : MayExtend stretch ∧ kept = none := by
  obtain ⟨space, _, _, _, rfl, ⟨hspace, rfl⟩, ⟨heritage, _, _, _, rfl, hheritage, ⟨space', _, _, _,
    rfl, ⟨hspace', rfl⟩, hbrace, rfl⟩, rfl⟩, rfl⟩ := h
  obtain ⟨rfl, rfl⟩ := describes_char_iff.1 hbrace
  rcases hheritage with
    ⟨_, _, _, _, rfl, ⟨rfl, rfl⟩, ⟨gap, base, _, _, rfl, hgap, hbase, rfl⟩, rfl⟩ | ⟨rfl, rfl⟩
  · obtain ⟨hisGap, rfl⟩ := describes_gap_iff.1 hgap
    obtain ⟨hname, rfl⟩ := describes_name_iff.1 hbase
    exact ⟨⟨space, _, space', hspace, hspace', rfl, .inr ⟨gap, base, hisGap, hname, rfl⟩⟩, rfl⟩
  · exact ⟨⟨space, [], space', hspace, hspace', rfl, .inl rfl⟩, rfl⟩

/-! ## Headers -/

theorem exists_parts_of_functionHeader {stretch : List Char} {kept : Option (Nat × Nat)}
    (h : functionHeader.Describes stretch kept) :
    ∃ space name trail, IsGap space ∧ TakesParameters ')' trail ∧
      KeepsName stretch kept ("function".toList ++ space) name trail := by
  obtain ⟨declared, trail, here, there, rfl, hdeclared, htrail, rfl⟩ := h
  obtain ⟨space, name, hspace, hkeeps⟩ := describes_declaration_iff.1 hdeclared
  obtain ⟨hparameters, rfl⟩ := describes_takesParameters_iff.1 htrail
  rw [Option.map_none, Option.or_none]
  exact ⟨space, name, trail, hspace, hparameters, hkeeps.append⟩

theorem exists_parts_of_classHeader {stretch : List Char} {kept : Option (Nat × Nat)}
    (h : classHeader.Describes stretch kept) :
    ∃ space name trail, IsGap space ∧ MayExtend trail ∧
      KeepsName stretch kept ("class".toList ++ space) name trail := by
  obtain ⟨declared, trail, here, there, rfl, hdeclared, htrail, rfl⟩ := h
  obtain ⟨space, name, hspace, hkeeps⟩ := describes_declaration_iff.1 hdeclared
  obtain ⟨hextends, rfl⟩ := mayExtend_of_describes htrail
  rw [Option.map_none, Option.or_none]
  exact ⟨space, name, trail, hspace, hextends, hkeeps.append⟩

theorem describes_methodHeader_iff {stretch : List Char} {kept : Option (Nat × Nat)} :
    methodHeader.Describes stretch kept ↔
      ∃ indent name trail, AllBlank indent ∧ TakesParameters ';' trail ∧
        KeepsName stretch kept ('\n' :: indent) name trail := by
  constructor
  · rintro ⟨_, _, _, _, rfl, hbreak, ⟨indent, _, _, _, rfl, ⟨hindent, rfl⟩, ⟨name, trail, _, _, rfl,
      hname, htrail, rfl⟩, rfl⟩, rfl⟩
    obtain ⟨rfl, rfl⟩ := describes_char_iff.1 hbreak
    obtain ⟨hisName, rfl⟩ := describes_capture_name_iff.1 hname
    obtain ⟨hparameters, rfl⟩ := describes_takesParameters_iff.1 htrail
    exact ⟨indent, name, trail, hindent, hparameters, rfl, hisName, by simp; omega⟩
  · rintro ⟨indent, name, trail, hindent, htrail, rfl, hname, rfl⟩
    refine ⟨['\n'], _, none, _, rfl, describes_char_iff.2 ⟨rfl, rfl⟩, ⟨indent, _, none, _, rfl,
      ⟨hindent, rfl⟩, ⟨name, trail, _, none, rfl, describes_capture_name_iff.2 ⟨hname, rfl⟩,
      describes_takesParameters_iff.2 ⟨htrail, rfl⟩, rfl⟩, rfl⟩, ?_⟩
    simp
    omega

end CodeSurvey.Pattern
