import CodeSurvey.Extraction
import CodeSurvey.Proofs.ListLemmas
import CodeSurvey.Proofs.PatternSearch

/-!
# Lines that import a target

A line that starts with `import` and ends with a quoted target imports that target. Up to the quotes
an import declaration may hold any characters, line breaks among them, so one that starts with an
earlier `import` can reach over such a line. It then takes the quote in front of the target for the
one behind its own, and the target of the line is lost.

## Key results

- `Pattern.describes_staticImport_iff`: an import declaration, part by part
- `ImportLine.ReachesOver.stop_eq_or`: where a declaration ends that reaches over the line
- `ImportLine.ReachesOver.mem_importTargets_iff`: when the target of the line is listed
- `ImportLine.exists_reachesOver_mem_references_iff`: which lines are collected
-/

namespace CodeSurvey

namespace Pattern

/-- Text without quotes. -/
def Unquoted (text : List Char) : Prop :=
  ∀ c ∈ text, isQuote c = false

instance (text : List Char) : Decidable (Unquoted text) :=
  List.decidableBAll (isQuote · = false) text

theorem unquoted_append_iff {front back : List Char} :
    Unquoted (front ++ back) ↔ Unquoted front ∧ Unquoted back :=
  List.forall_mem_append

/-- A stretch of text up to the end of its first quoted target, which is kept. -/
structure QuotesTarget (stretch : List Char) (kept : Option (Nat × Nat)) (lead : List Char)
    (opening : Char) (target : List Char) (closing : Char) : Prop where
  stretch_eq : stretch = lead ++ opening :: (target ++ [closing])
  unquoted_lead : Unquoted lead
  isQuote_opening : isQuote opening = true
  unquoted_target : Unquoted target
  target_ne_nil : target ≠ []
  isQuote_closing : isQuote closing = true
  kept_eq : kept = some (lead.length + 1, lead.length + 1 + target.length)

theorem QuotesTarget.group_eq {stretch lead target : List Char} {kept : Option (Nat × Nat)}
    {opening closing : Char} (h : QuotesTarget stretch kept lead opening target closing) :
    (kept.map fun span => String.ofList ((stretch.take span.2).drop span.1)) =
      some (String.ofList target) := by
  have hstretch : stretch = (lead ++ [opening]) ++ (target ++ [closing]) := by
    simp [h.stretch_eq]
  have hlength : lead.length + 1 = (lead ++ [opening]).length := by simp
  rw [h.kept_eq, hstretch, Option.map_some, hlength, List.take_length_add_append, List.drop_left,
    List.take_left]

theorem forall_not_isQuote_iff {text : List Char} :
    (∀ c ∈ text, (!isQuote c) = true) ↔ Unquoted text := by
  simp [Unquoted]

theorem describes_quotedTarget_iff {stretch : List Char} {kept : Option (Nat × Nat)} :
    quotedTarget.Describes stretch kept ↔
      ∃ opening target closing, QuotesTarget stretch kept [] opening target closing := by
  constructor
  · rintro ⟨_, _, _, _, rfl, ⟨⟨opening, rfl, hopening⟩, rfl⟩, ⟨target, _, _, _, rfl,
      ⟨_, ⟨_, rest, _, _, rfl, ⟨⟨c, rfl, hc⟩, rfl⟩, ⟨hrest, rfl⟩, rfl⟩, rfl⟩,
      ⟨⟨closing, rfl, hclosing⟩, rfl⟩, rfl⟩, rfl⟩
    have htarget := forall_not_isQuote_iff.1 (List.forall_mem_cons.2 ⟨hc, hrest⟩)
    exact ⟨opening, c :: rest, closing, rfl, List.forall_mem_nil _, hopening, htarget,
      List.cons_ne_nil c rest, hclosing, rfl⟩
  · rintro ⟨opening, target, closing, rfl, -, hopening, htarget, hne, hclosing, rfl⟩
    obtain ⟨c, rest, rfl⟩ := List.exists_cons_of_ne_nil hne
    obtain ⟨hc, hrest⟩ := List.forall_mem_cons.1 (forall_not_isQuote_iff.2 htarget)
    exact ⟨[opening], _, none, _, rfl, ⟨⟨opening, rfl, hopening⟩, rfl⟩, ⟨c :: rest, [closing], _,
      none, rfl, ⟨none, ⟨[c], rest, none, none, rfl, ⟨⟨c, rfl, hc⟩, rfl⟩, ⟨hrest, rfl⟩, rfl⟩, rfl⟩,
      ⟨⟨closing, rfl, hclosing⟩, rfl⟩, rfl⟩, rfl⟩

/-- An import declaration goes on to the end of the first quoted target. -/
theorem describes_staticImport_iff {stretch : List Char} {kept : Option (Nat × Nat)} :
    staticImport.Describes stretch kept ↔ ∃ clause opening target closing,
      QuotesTarget stretch kept ("import".toList ++ clause) opening target closing := by
  have himport : Unquoted "import".toList := by decide
  constructor
  · rintro ⟨_, _, _, _, rfl, ⟨rfl, rfl⟩, ⟨clause, _, _, _, rfl, ⟨hclause, rfl⟩, hquoted, rfl⟩, rfl⟩
    obtain ⟨opening, target, closing, rfl, -, hopening, htarget, hne, hclosing, rfl⟩ :=
      describes_quotedTarget_iff.1 hquoted
    refine ⟨clause, opening, target, closing, by simp, ?_, hopening, htarget, hne, hclosing, ?_⟩
    · exact unquoted_append_iff.2 ⟨himport, forall_not_isQuote_iff.1 hclause⟩
    · simp
      omega
  · rintro ⟨clause, opening, target, closing, rfl, hlead, hopening, htarget, hne, hclosing, rfl⟩
    have hclause := forall_not_isQuote_iff.2 (unquoted_append_iff.1 hlead).2
    have hquoted := describes_quotedTarget_iff.2 ⟨opening, target, closing, rfl,
      List.forall_mem_nil _, hopening, htarget, hne, hclosing, rfl⟩
    refine ⟨"import".toList, _, none, _, List.append_assoc _ _ _, ⟨rfl, rfl⟩, ⟨clause, _, none, _,
      rfl, ⟨hclause, rfl⟩, hquoted, rfl⟩, ?_⟩
    simp
    omega

end Pattern

open Text (byteLength)
open Pattern (isQuote Unquoted)

/-- A line that imports a target, with or without a clause in front of it. -/
structure ImportLine where
  clause : Option (List Char)
  quote : Char
  target : List Char
  unquoted_clause : ∀ names ∈ clause, Unquoted names
  isQuote_quote : isQuote quote = true
  unquoted_target : Unquoted target
  target_ne_nil : target ≠ []

namespace ImportLine

/-- What stands between the keyword and the quotes. -/
def middle (line : ImportLine) : List Char :=
  line.clause.elim " ".toList fun names => " ".toList ++ (names ++ " from ".toList)

/-- The line up to its quotes. -/
def lead (line : ImportLine) : List Char :=
  "import".toList ++ line.middle

/-- The characters of the line. -/
def text (line : ImportLine) : List Char :=
  line.lead ++ line.quote :: (line.target ++ [line.quote])

/-- A text with the line in it. -/
def within (line : ImportLine) (front back : List Char) : List Char :=
  front ++ (line.text ++ back)

/-- The byte behind the line. -/
def stop (line : ImportLine) (front : List Char) : Nat :=
  byteLength (front ++ line.text)

/-- The byte of the first of its quotes. -/
def opening (line : ImportLine) (front : List Char) : Nat :=
  byteLength (front ++ line.lead)

/-- The target of the line is found elsewhere, by an import declaration that does not end with the
line or by a call. -/
def IsFoundElsewhere (line : ImportLine) (front back : List Char) : Prop :=
  (∃ found ∈ Pattern.staticImport.findAll (line.within front back),
    found.stop ≠ line.stop front ∧ found.group = some (String.ofList line.target)) ∨
  String.ofList line.target ∈ Pattern.requireCall.groups (line.within front back) ∨
  String.ofList line.target ∈ Pattern.dynamicImport.groups (line.within front back)

theorem unquoted_lead (line : ImportLine) : Unquoted line.lead := by
  refine Pattern.unquoted_append_iff.2 ⟨by decide, ?_⟩
  rw [middle]
  cases hclause : line.clause with
  | none => decide
  | some names =>
    have hnames := line.unquoted_clause names hclause
    exact Pattern.unquoted_append_iff.2
      ⟨by decide, Pattern.unquoted_append_iff.2 ⟨hnames, by decide⟩⟩

theorem quotesTarget (line : ImportLine) :
    Pattern.QuotesTarget line.text
      (some (line.lead.length + 1, line.lead.length + 1 + line.target.length)) line.lead line.quote
      line.target line.quote :=
  ⟨rfl, line.unquoted_lead, line.isQuote_quote, line.unquoted_target, line.target_ne_nil,
    line.isQuote_quote, rfl⟩

theorem opening_lt_stop (line : ImportLine) (front : List Char) :
    byteLength front ≤ line.opening front ∧
      line.opening front + line.quote.utf8Size < line.stop front := by
  have hpos := line.quote.utf8Size_pos
  simp only [opening, stop, text, Text.byteLength_append, Text.byteLength_cons]
  omega

/-- An import declaration reaches over a line. It starts with the line or in front of it. -/
structure ReachesOver (line : ImportLine) (front back : List Char) (found : Match)
    (before between : List Char) : Prop where
  mem : found ∈ Pattern.staticImport.findAll (line.within front back)
  front_eq : front = before ++ between
  start_eq : found.start = byteLength before
  lt_stop : byteLength front < found.stop

/-- What an import declaration is to the text around it. -/
theorem exists_quotesTarget_of_mem_findAll {text : List Char} {found : Match}
    (h : found ∈ Pattern.staticImport.findAll text) :
    ∃ front stretch back kept clause opening target closing, text = front ++ (stretch ++ back) ∧
      Pattern.QuotesTarget stretch kept ("import".toList ++ clause) opening target closing ∧
      found = ⟨byteLength front, byteLength (front ++ stretch), some (String.ofList target)⟩ := by
  obtain ⟨front, stretch, back, kept, rfl, hdescribes, hstart, hstop, hgroup⟩ :=
    Pattern.exists_describes_of_mem_findAll h
  obtain ⟨clause, opening, target, closing, hquotes⟩ :=
    Pattern.describes_staticImport_iff.1 hdescribes
  rw [hquotes.group_eq] at hgroup
  exact ⟨front, stretch, back, kept, clause, opening, target, closing, rfl, hquotes,
    by rw [← hstart, ← hstop, ← hgroup]⟩

/-- An import declaration reaches over the line. -/
theorem exists_reachesOver (line : ImportLine) (front back : List Char) :
    ∃ found before between, line.ReachesOver front back found before between := by
  obtain ⟨found, hfound, before, between, hfront, hstart, hlt⟩ :=
    Pattern.exists_mem_findAll_reaching (fun h => by
      obtain ⟨clause, opening, target, closing, hquotes⟩ := Pattern.describes_staticImport_iff.1 h
      simp [hquotes.stretch_eq])
      (show line.within front back = front ++ (line.text ++ back) from rfl)
      (Pattern.describes_staticImport_iff.2 ⟨_, _, _, _, line.quotesTarget⟩)
  exact ⟨found, before, between, hfound, hfront, hstart, hlt⟩

/-- A stretch up to its first quoted target that starts in front of a line ends with the line if no
quote stands there, with the first quote of the line if one does, and else in front of the line. -/
theorem stretch_eq_or (line : ImportLine) {between back stretch beyond lead target : List Char}
    {kept : Option (Nat × Nat)} {opening closing : Char}
    (hquotes : Pattern.QuotesTarget stretch kept lead opening target closing)
    (h : between ++ (line.text ++ back) = stretch ++ beyond) :
    (Unquoted between ∧ stretch = between ++ line.text ∧ target = line.target) ∨
    (∃ rest, between = lead ++ opening :: rest ∧ Unquoted rest ∧
      stretch = between ++ (line.lead ++ [line.quote])) ∨
    ∃ rest, between = stretch ++ rest := by
  obtain ⟨rfl, hlead, hopening, htarget, -, hclosing, -⟩ := hquotes
  have hcut : between ++ (line.lead ++ line.quote :: (line.target ++ line.quote :: back)) =
      lead ++ opening :: (target ++ closing :: beyond) := by
    simpa [text] using h
  by_cases hbetween : Unquoted between
  · -- the first quote is that of the line
    rw [← List.append_assoc] at hcut
    obtain ⟨rfl, rfl, hbehind⟩ := List.eq_of_append_cons_of_first hcut
      (Pattern.unquoted_append_iff.2 ⟨hbetween, line.unquoted_lead⟩) line.isQuote_quote hlead
      hopening
    obtain ⟨rfl, rfl, -⟩ := List.eq_of_append_cons_of_first hbehind line.unquoted_target
      line.isQuote_quote htarget hclosing
    exact .inl ⟨hbetween, by simp [text], rfl⟩
  · obtain ⟨first, quote, rest, rfl, hfirst, hquote⟩ := List.exists_first_of_exists hbetween
    rw [List.append_assoc, List.cons_append] at hcut
    obtain ⟨rfl, rfl, hbehind⟩ := List.eq_of_append_cons_of_first hcut hfirst hquote hlead hopening
    by_cases hrest : Unquoted rest
    · -- the second quote is the first one of the line
      rw [← List.append_assoc] at hbehind
      obtain ⟨rfl, rfl, -⟩ := List.eq_of_append_cons_of_first hbehind
        (Pattern.unquoted_append_iff.2 ⟨hrest, line.unquoted_lead⟩) line.isQuote_quote htarget
        hclosing
      exact .inr (.inl ⟨rest, rfl, hrest, by simp⟩)
    · obtain ⟨second, quote', rest, rfl, hsecond, hquote'⟩ := List.exists_first_of_exists hrest
      rw [List.append_assoc, List.cons_append] at hbehind
      obtain ⟨rfl, rfl, -⟩ :=
        List.eq_of_append_cons_of_first hbehind hsecond hquote' htarget hclosing
      exact .inr (.inr ⟨rest, by simp⟩)

namespace ReachesOver

variable {line : ImportLine} {front back before between : List Char} {found : Match}
variable (h : line.ReachesOver front back found before between)

include h

/-- Either no quote stands between the start of the declaration and the line, and it ends with the
line and has its target, or there is one, and it ends with the first quote of the line. -/
theorem stop_eq_or :
    (Unquoted between ∧ found.stop = line.stop front ∧
      found.group = some (String.ofList line.target)) ∨
    ∃ clause quote rest, between = "import".toList ++ (clause ++ quote :: rest) ∧ Unquoted clause ∧
      isQuote quote = true ∧ Unquoted rest ∧
      found.stop = line.opening front + line.quote.utf8Size := by
  obtain ⟨before', stretch, beyond, kept, clause, quote, target, closing, htext, hquotes, rfl⟩ :=
    exists_quotesTarget_of_mem_findAll h.mem
  rw [within, h.front_eq, List.append_assoc] at htext
  obtain ⟨rfl, hrest⟩ := Text.eq_of_append_eq_append htext h.start_eq.symm
  rcases line.stretch_eq_or hquotes hrest with
    ⟨hbetween, rfl, rfl⟩ | ⟨rest, hbetween, hunquoted, rfl⟩ | ⟨rest, hbetween⟩
  · refine .inl ⟨hbetween, ?_, rfl⟩
    rw [stop, h.front_eq, List.append_assoc]
  · have hclause := (Pattern.unquoted_append_iff.1 hquotes.unquoted_lead).2
    refine .inr ⟨clause, quote, rest, by simp [hbetween], hclause, hquotes.isQuote_opening,
      hunquoted, ?_⟩
    have hquote : byteLength [line.quote] = line.quote.utf8Size := Text.byteLength_cons _ []
    rw [opening, h.front_eq, ← hquote, ← Text.byteLength_append]
    simp
  · -- it would end in front of the line
    have hlt := h.lt_stop
    rw [h.front_eq, hbetween, ← List.append_assoc, Text.byteLength_append] at hlt
    simp only at hlt
    omega

theorem start_le : found.start ≤ byteLength front := by
  rw [h.start_eq, h.front_eq, Text.byteLength_append]
  omega

theorem opening_lt_stop : line.opening front < found.stop := by
  have hpos := line.quote.utf8Size_pos
  have hline := line.opening_lt_stop front
  rcases h.stop_eq_or with ⟨-, hstop, -⟩ | ⟨_, _, _, -, -, -, -, hstop⟩ <;> omega

/-- The declaration ends with the line exactly if no quote stands in front of the line. -/
theorem stop_eq_iff : found.stop = line.stop front ↔ Unquoted between := by
  have hline := line.opening_lt_stop front
  rcases h.stop_eq_or with ⟨hbetween, hstop, -⟩ | ⟨clause, quote, rest, rfl, -, hquote, -, hstop⟩
  · exact iff_of_true hstop hbetween
  · refine iff_of_false (by omega) fun hbetween => ?_
    rw [hbetween quote (by simp)] at hquote
    cases hquote

/-- A declaration that ends with the line is the one that reaches over it. -/
theorem eq_of_stop_eq {other : Match}
    (hother : other ∈ Pattern.staticImport.findAll (line.within front back))
    (hstop : other.stop = line.stop front) : found = other := by
  obtain ⟨before', stretch, beyond, kept, clause, quote, target, closing, htext, hquotes, rfl⟩ :=
    exists_quotesTarget_of_mem_findAll hother
  -- both end with a quote, and in front of it with a target behind the last quote
  have hend : before' ++ stretch = front ++ line.text := by
    rw [within, ← List.append_assoc, ← List.append_assoc] at htext
    exact (Text.eq_of_append_eq_append htext hstop.symm).1.symm
  have hcut : (before' ++ ("import".toList ++ clause) ++ quote :: target) ++ [closing] =
      (front ++ line.lead ++ line.quote :: line.target) ++ [line.quote] := by
    simpa [text, hquotes.stretch_eq] using hend
  obtain ⟨hfront, -⟩ := List.append_inj' hcut rfl
  obtain ⟨hlead, -⟩ := List.eq_of_append_cons_of_last hfront hquotes.unquoted_target
    hquotes.isQuote_opening line.unquoted_target line.isQuote_quote
  have hle : byteLength before' ≤ line.opening front := by
    rw [opening, ← hlead, Text.byteLength_append]
    exact Nat.le_add_right _ _
  have hline := line.opening_lt_stop front
  exact Pattern.eq_of_overlap h.mem hother (Nat.le_trans h.start_le hline.1) h.opening_lt_stop hle
    (by rw [hstop]; omega)

/-- The target of the line is listed exactly if the declaration ends with the line or the target is
found elsewhere. -/
theorem mem_importTargets_iff :
    String.ofList line.target ∈ importTargets (line.within front back) ↔
      Unquoted between ∨ line.IsFoundElsewhere front back := by
  rw [importTargets, firstOccurrences, List.mem_eraseDups, List.mem_append, List.mem_append,
    or_assoc]
  constructor
  · rintro (himport | hcall)
    · obtain ⟨other, hother, hgroup⟩ := List.mem_filterMap.1 himport
      by_cases hstop : other.stop = line.stop front
      · obtain rfl := h.eq_of_stop_eq hother hstop
        exact .inl (h.stop_eq_iff.1 hstop)
      · exact .inr (.inl ⟨other, hother, hstop, hgroup⟩)
    · exact .inr (.inr hcall)
  · rintro (hbetween | ⟨other, hother, -, hgroup⟩ | hcall)
    · rcases h.stop_eq_or with ⟨-, -, hgroup⟩ | ⟨_, _, _, -, -, -, -, hstop⟩
      · exact .inl (List.mem_filterMap.2 ⟨found, h.mem, hgroup⟩)
      · have hline := line.opening_lt_stop front
        have hend := h.stop_eq_iff.2 hbetween
        omega
    · exact .inl (List.mem_filterMap.2 ⟨other, hother, hgroup⟩)
    · exact .inr hcall

/-- No quote stands in front of the line unless it is the only one behind an `import`. -/
theorem unquoted_of_countP_ne
    (hcount : ∀ first rest, front = first ++ ("import".toList ++ rest) → rest.countP isQuote ≠ 1) :
    Unquoted between := by
  rcases h.stop_eq_or with ⟨hbetween, -, -⟩ | ⟨clause, quote, rest, rfl, hclause, hquote, hrest, -⟩
  · exact hbetween
  · refine absurd ?_ (hcount before _ h.front_eq)
    have hnone : ∀ {text : List Char}, Unquoted text → text.countP isQuote = 0 := fun h =>
      List.countP_eq_zero.2 fun c hc => by simp [h c hc]
    rw [List.countP_append, List.countP_cons_of_pos hquote, hnone hclause, hnone hrest]

end ReachesOver

/-- One import declaration reaches over a line that imports a target: it starts with the line or in
front of it, and ends with the line or within it. If no quote stands between its start and the line,
it ends with the line and has its target, and else it does not end with the line. So the target is
listed exactly if no quote stands there or the target is found elsewhere, and it is whenever no
`import` in front of the line is followed by just one quote. -/
theorem exists_reachesOver_mem_references_iff (limit : Nat) (line : ImportLine)
    (front back : List Char) :
    ∃ found before between, line.ReachesOver front back found before between ∧
      (found.stop = line.stop front ∧ found.group = some (String.ofList line.target) ↔
        Unquoted between) ∧
      (String.ofList line.target ∈
          (Extraction.ofText limit (String.ofList (line.within front back))).references ↔
        Unquoted between ∨ line.IsFoundElsewhere front back) ∧
      ((∀ first rest, front = first ++ ("import".toList ++ rest) → rest.countP isQuote ≠ 1) →
        String.ofList line.target ∈
          (Extraction.ofText limit (String.ofList (line.within front back))).references) := by
  obtain ⟨found, before, between, h⟩ := line.exists_reachesOver front back
  have hreferences : (Extraction.ofText limit (String.ofList (line.within front back))).references =
      importTargets (line.within front back) := by
    rw [Extraction.ofText, String.toList_ofList]
  rw [hreferences]
  have hiff := h.mem_importTargets_iff
  refine ⟨found, before, between, h, ⟨fun hends => h.stop_eq_iff.1 hends.1, fun hbetween => ?_⟩,
    hiff, fun hcount => hiff.2 (.inl (h.unquoted_of_countP_ne hcount))⟩
  rcases h.stop_eq_or with ⟨-, hends⟩ | ⟨_, _, _, -, -, -, -, hstop⟩
  · exact hends
  · have hline := line.opening_lt_stop front
    have hend := h.stop_eq_iff.2 hbetween
    omega

/-- Behind a comment with an `import` and an apostrophe the import of a line is not listed. -/
theorem not_mem_references_comment :
    ∃ (line : ImportLine) (front back : List Char),
      line.within front back = "// import isn\x27t lazy\nimport a from \x27b\x27;\n".toList ∧
        front = "// import isn\x27t lazy\n".toList ∧ line.clause = some ['a'] ∧
        String.ofList line.target = "b" ∧
        "b" ∉ (Extraction.ofText 10000
          "// import isn\x27t lazy\nimport a from \x27b\x27;\n").references :=
  ⟨⟨some ['a'], '\x27', ['b'], by simp [Unquoted, isQuote], rfl, by decide,
      List.cons_ne_nil _ _⟩,
    "// import isn\x27t lazy\n".toList, ";\n".toList, rfl, rfl, rfl, rfl, by decide +kernel⟩

end ImportLine

end CodeSurvey
