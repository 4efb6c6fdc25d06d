import CodeSurvey.Pattern.Source
import CodeSurvey.Proofs.ListLemmas
import CodeSurvey.Proofs.NormalForms
import CodeSurvey.Proofs.PatternSearch

/-!
# Normal forms by patterns

A text is brought to its normal form in three passes that go over its characters. Each pass puts
something else in the place of the matches of a pattern: comments are deleted, quotes become double
quotes and stretches of white space become spaces.

## Key results

- `Rewrites.eq_replaceAll`: a text with something else for each match, match by match
- `dropComments_eq_replaceAll`, `map_doubleQuote_eq_replaceAll`, `squeeze_eq_replaceAll`: the passes
- `normal_eq_replaceAll`: the normal form of a text by the three patterns
-/

namespace CodeSurvey

namespace Pattern

/-! ## Replacing matches -/

/-- What stands behind a place of a text, with something else for each match that is to come. -/
def replaceFrom (text replacement : List Char) : (place : Nat) → List (Nat × Outcome) → List Char
  | place, [] => text.drop place
  | place, (first, outcome) :: rest =>
    (text.take first).drop place ++ replacement ++ replaceFrom text replacement outcome.stop rest

/-- A text with something else in the place of each match. -/
def replaceAll (pattern : Pattern) (text replacement : List Char) : List Char :=
  replaceFrom text replacement 0
    (findFrom (pattern.before text.toArray .done) (text.length + 1) 0 0 [])

/-- What has been found stands before the matches that are to come. -/
theorem findFrom_eq_append (search : Search) (count place resume : Nat)
    (found : List (Nat × Outcome)) :
    findFrom search count place resume found =
      found.reverse ++ findFrom search count place resume [] := by
  induction count generalizing place resume found with
  | zero => simp [findFrom]
  | succ count ih =>
    simp only [findFrom]
    split
    · exact ih _ _ _
    · split
      · exact ih _ _ _
      · rw [ih _ _ (_ :: found), ih _ _ [_]]
        simp

/-- The places within the last match are passed over. -/
theorem findFrom_within (search : Search) (count place width : Nat)
    (found : List (Nat × Outcome)) :
    findFrom search (count + width) place (place + width) found =
      findFrom search count (place + width) (place + width) found := by
  induction width generalizing place with
  | zero => rfl
  | succ width ih =>
    have hstop : place + (width + 1) = place + 1 + width := by omega
    rw [← Nat.add_assoc, findFrom_passed (.inl (by omega)), hstop]
    exact ih (place + 1)

/-- A character in front of all matches is kept. -/
theorem replaceFrom_cons {front rest replacement : List Char} {c : Char}
    {found : List (Nat × Outcome)} (h : ∀ entry ∈ found, front.length + 1 ≤ entry.1) :
    replaceFrom (front ++ c :: rest) replacement front.length found =
      c :: replaceFrom (front ++ c :: rest) replacement (front ++ [c]).length found := by
  have htext : front ++ c :: rest = (front ++ [c]) ++ rest := by simp
  cases found with
  | nil => rw [replaceFrom, replaceFrom, List.drop_left, htext, List.drop_left]
  | cons entry found =>
    obtain ⟨more, hmore⟩ := Nat.exists_eq_add_of_le (h entry List.mem_cons_self)
    have htake : (front ++ c :: rest).take entry.1 = (front ++ [c]) ++ rest.take more := by
      have hlength : front.length + 1 = (front ++ [c]).length := by simp
      rw [hmore, htext, hlength, List.take_length_add_append]
    have hkept : ((front ++ [c]) ++ rest.take more).drop front.length = c :: rest.take more := by
      rw [List.append_assoc, List.drop_left, List.singleton_append]
    rw [replaceFrom, replaceFrom, htake, List.drop_left, hkept]
    rfl

/-! ## Texts match by match -/

/-- Whatever stands in front of a text, nothing is found at its start. -/
def Misses (p : Pattern) (text : List Char) : Prop :=
  ∀ front, (p.before (front ++ text).toArray .done).outcome front.length = none

/-- Whatever stands in front of it, a stretch is what is found where it starts. -/
def Takes (p : Pattern) (stretch back : List Char) : Prop :=
  ∀ front, ∃ outcome,
    (p.before (front ++ (stretch ++ back)).toArray .done).outcome front.length = some outcome ∧
      outcome.stop = front.length + stretch.length

/-- What becomes of a text in which something else is put in the place of each match. -/
inductive Rewrites (p : Pattern) (replacement : List Char) : (text result : List Char) → Prop where
  | nil (hmiss : p.Misses []) : Rewrites p replacement [] []
  | keep {c : Char} {rest result : List Char} (hmiss : p.Misses (c :: rest))
      (h : Rewrites p replacement rest result) :
      Rewrites p replacement (c :: rest) (c :: result)
  | replace {stretch back result : List Char} (hne : stretch ≠ []) (htakes : p.Takes stretch back)
      (h : Rewrites p replacement back result) :
      Rewrites p replacement (stretch ++ back) (replacement ++ result)

theorem Rewrites.eq_replaceFrom {p : Pattern} {replacement front rest result : List Char}
    (h : p.Rewrites replacement rest result) {resume : Nat} (hresume : resume ≤ front.length) :
    result = replaceFrom (front ++ rest) replacement front.length
      (findFrom (p.before (front ++ rest).toArray .done) (rest.length + 1) front.length resume
        []) := by
  -- what has been read goes over to `front`, and the whole text stays the same
  induction h generalizing front resume with
  | nil hmiss =>
    rw [List.length_nil, findFrom_passed (.inr (hmiss front)), findFrom, List.reverse_nil,
      replaceFrom, List.drop_left]
  | @keep c rest result hmiss _ ih =>
    have hrest := @ih (front ++ [c]) resume (by rw [List.length_append]; omega)
    rw [List.append_assoc, List.singleton_append] at hrest
    rw [List.length_cons, findFrom_passed (.inr (hmiss front)), replaceFrom_cons, hrest,
      List.length_append, List.length_singleton]
    -- all that is found later stands later
    intro entry hentry
    exact ((outcome_of_mem_findFrom hentry).resolve_left List.not_mem_nil).2.1
  | @replace stretch back result hne htakes _ ih =>
    obtain ⟨outcome, houtcome, hstop⟩ := htakes front
    have hrest := @ih (front ++ stretch) outcome.stop (by rw [hstop, List.length_append])
    obtain ⟨width, hwidth⟩ : ∃ width, stretch.length = width + 1 :=
      Nat.exists_eq_succ_of_ne_zero (List.length_eq_zero_iff.not.2 hne)
    have hcount : (stretch ++ back).length + 1 = back.length + 1 + width + 1 := by
      rw [List.length_append]
      omega
    have hplace : outcome.stop = front.length + 1 + width := by omega
    rw [List.append_assoc, List.length_append, ← hstop] at hrest
    rw [hcount, findFrom_met hresume houtcome, hplace, findFrom_within, findFrom_eq_append,
      List.reverse_singleton, List.singleton_append, replaceFrom, List.take_left,
      List.drop_length, List.nil_append, ← hplace, ← hrest]

/-- A text with something else for each match, match by match. -/
theorem Rewrites.eq_replaceAll {p : Pattern} {replacement text result : List Char}
    (h : p.Rewrites replacement text result) : result = p.replaceAll text replacement :=
  @Rewrites.eq_replaceFrom _ _ [] _ _ h 0 (Nat.le_refl 0)

/-- Nothing is found where the pattern describes no start of the text. -/
theorem misses_of_not_describes {p : Pattern} {text : List Char}
    (h : ∀ stretch kept, stretch <+: text → ¬ p.Describes stretch kept) : p.Misses text := by
  intro front
  rw [Option.eq_none_iff_forall_ne_some]
  intro outcome houtcome
  obtain ⟨stretch, back, kept, -, rfl, hdescribes, -⟩ := exists_describes_of_outcome houtcome
  exact h stretch kept (List.prefix_append _ _) hdescribes

/-- A part of fixed width and a run behind it: the run takes all that it can. -/
theorem takes_seq_many {first : Pattern} {set : Char → Bool} {head run back : List Char}
    (hhead : first.Describes head none)
    (hwidth : ∀ stretch kept, first.Describes stretch kept → stretch.length = head.length)
    (hrun : ∀ c ∈ run, set c = true) (hback : back.head?.any set = false) :
    (seq first (many set)).Takes (head ++ run) back := by
  intro front
  have hdescribes : (seq first (many set)).Describes (head ++ run) none :=
    ⟨head, run, none, none, rfl, hhead, ⟨hrun, rfl⟩, rfl⟩
  obtain ⟨outcome, houtcome⟩ := Option.isSome_iff_exists.1
    (@isSome_outcome_of_describes _ front _ back _ .done hdescribes rfl)
  have hstop := isIn_stop_of_lastRun rfl (fun place => ⟨_, rfl, rfl⟩) houtcome
  obtain ⟨stretch, behind, kept, later, htext, hfound, hlater, rfl⟩ :=
    exists_describes_of_outcome houtcome
  obtain ⟨head', run', _, _, rfl, hhead', ⟨hrun', -⟩, -⟩ := hfound
  obtain rfl := Option.some.inj hlater
  refine ⟨_, houtcome, ?_⟩
  change isIn set _ (front.length + (head' ++ run').length) = false at hstop
  rw [htext, ← List.append_assoc front, ← List.length_append, isIn_append] at hstop
  -- both heads have one width, and both runs take all that they can
  rw [List.append_assoc, List.append_assoc] at htext
  obtain ⟨rfl, htail⟩ := List.append_inj htext (hwidth _ _ hhead').symm
  obtain ⟨rfl, -⟩ := List.eq_of_append_eq_append_of_run htail hrun hback hrun' hstop
  rfl

theorem misses_one {set : Char → Bool} {text : List Char} (h : text.head?.any set = false) :
    (one set).Misses text := by
  intro front
  simp only [before]
  rw [isIn_append, h, if_neg Bool.false_ne_true]

theorem takes_one {set : Char → Bool} {c : Char} {back : List Char} (h : set c = true) :
    (one set).Takes [c] back := by
  intro front
  refine ⟨⟨front.length + 1, none, none⟩, ?_, rfl⟩
  simp only [before]
  rw [isIn_append, if_pos (by exact h)]
  rfl

/-! ## The three patterns -/

theorem misses_lineComment {text : List Char} (h : ¬ ['/', '/'] <+: text) :
    lineComment.Misses text := by
  refine misses_of_not_describes fun stretch kept hprefix hdescribes => h ?_
  obtain ⟨slashes, comment, -, -, rfl, ⟨rfl, -⟩, -, -⟩ := hdescribes
  exact (List.prefix_append _ _).trans hprefix

end Pattern

namespace Text

open Pattern

/-- Comments are the matches of their pattern. -/
theorem rewrites_lineComment {text kept : List Char} (h : Uncomments text kept) :
    lineComment.Rewrites [] text kept := by
  induction h with
  | nil => exact .nil (misses_lineComment (by decide))
  | code hcode _ ih => exact .keep (misses_lineComment hcode) ih
  | @comment comment rest kept hcomment hrest _ ih =>
    have hline : ∀ c ∈ comment, (c != '\r' && c != '\n') = true := fun c hc => by
      simpa [endsLine] using hcomment c hc
    have hend : rest.head?.any (fun c => c != '\r' && c != '\n') = false := by
      cases rest with
      | nil => rfl
      | cons c rest => simpa [endsLine, imp_iff_or_not, or_comm] using hrest
    have htakes : lineComment.Takes (['/', '/'] ++ comment) rest :=
      @takes_seq_many (word ['/', '/']) _ _ _ _ ⟨rfl, rfl⟩
        (fun _ _ hword => congrArg List.length hword.1) hline hend
    exact .replace (List.cons_ne_nil _ _) htakes ih

/-- A text without its comments is the text with nothing in their place. -/
theorem dropComments_eq_replaceAll (text : List Char) :
    dropComments text = lineComment.replaceAll text [] :=
  (rewrites_lineComment (uncomments_dropComments text)).eq_replaceAll

/-- Quotes are the matches of their pattern. -/
theorem rewrites_quote (text : List Char) : quote.Rewrites ['"'] text (text.map doubleQuote) := by
  induction text with
  | nil => exact .nil (misses_one rfl)
  | cons c rest ih =>
    by_cases hc : c == '\x27' || c == '"'
    · have hquote : doubleQuote c = '"' := by
        rw [Bool.or_eq_true, beq_iff_eq, beq_iff_eq] at hc
        obtain rfl | rfl := hc <;> rfl
      rw [List.map_cons, hquote]
      exact .replace (List.cons_ne_nil c []) (takes_one hc) ih
    · have hquote : doubleQuote c = c := by
        rw [doubleQuote, if_neg]
        rintro rfl
        exact hc rfl
      rw [List.map_cons, hquote]
      exact .keep (misses_one (Bool.not_eq_true _ ▸ hc)) ih

theorem map_doubleQuote_eq_replaceAll (text : List Char) :
    text.map doubleQuote = quote.replaceAll text ['"'] :=
  (rewrites_quote text).eq_replaceAll

/-- Within a stretch of white space no other space is written. -/
theorem squeezeFrom_append_blanks {blanks : List Char} (h : ∀ c ∈ blanks, isBlank c = true)
    (rest : List Char) : squeezeFrom true [] (blanks ++ rest) = squeezeFrom true [] rest := by
  induction blanks with
  | nil => rfl
  | cons c blanks ih =>
    rw [List.forall_mem_cons] at h
    rw [List.cons_append, squeezeFrom_cons, if_pos h.1, if_pos rfl, List.nil_append, ih h.2]

theorem squeezeFrom_of_not_blank {text : List Char} (h : text.head?.any isBlank = false) :
    squeezeFrom true [] text = squeezeFrom false [] text := by
  cases text with
  | nil => rfl
  | cons c rest =>
    have hc : ¬ isBlank c = true := Bool.eq_false_iff.1 h
    rw [squeezeFrom_cons, squeezeFrom_cons, if_neg hc, if_neg hc]

/-- Stretches of white space are the matches of their pattern. -/
theorem rewrites_gap (text : List Char) : gap.Rewrites [' '] text (squeeze text) := by
  match text with
  | [] =>
    refine .nil (misses_of_not_describes fun stretch kept hprefix hdescribes => ?_)
    obtain ⟨_, _, _, _, rfl, ⟨⟨c, rfl, -⟩, -⟩, -, -⟩ := hdescribes
    exact nomatch List.prefix_nil.1 hprefix
  | c :: rest =>
    by_cases hc : isBlank c = true
    · -- the stretch goes on to the next character that is not blank
      let next := rest.dropWhile isBlank
      have hsplit : rest.takeWhile isBlank ++ next = rest := List.takeWhile_append_dropWhile
      have hblanks : ∀ d ∈ rest.takeWhile isBlank, isBlank d = true := fun d hd =>
        List.all_eq_true.1 List.all_takeWhile d hd
      have hnext : next.head?.any isBlank = false := by
        have hhead := List.head?_dropWhile_not isBlank rest
        cases hnext : next.head? with
        | none => rfl
        | some d => simpa [next, hnext] using hhead
      have hshorter : next.length < (c :: rest).length :=
        Nat.lt_succ_of_le (List.dropWhile_suffix isBlank (l := rest)).length_le
      have htakes : gap.Takes ([c] ++ rest.takeWhile isBlank) next :=
        @takes_seq_many (one isBlank) _ _ _ _ ⟨⟨c, rfl, hc⟩, rfl⟩
          (by rintro _ _ ⟨⟨d, rfl, -⟩, -⟩; rfl) hblanks hnext
      have hsqueeze : squeeze (c :: rest) = [' '] ++ squeeze next := by
        rw [squeeze, squeezeFrom_cons, if_pos hc, if_neg Bool.false_ne_true, ← hsplit,
          squeezeFrom_append_blanks hblanks, squeezeFrom_of_not_blank hnext, squeeze]
      rw [hsqueeze, ← hsplit]
      exact .replace (List.cons_ne_nil _ _) htakes (rewrites_gap next)
    · have hsqueeze : squeeze (c :: rest) = c :: squeeze rest := by
        rw [squeeze, squeezeFrom_cons, if_neg hc, squeeze]
      rw [hsqueeze]
      refine .keep (misses_of_not_describes fun stretch kept hprefix hdescribes => hc ?_)
        (rewrites_gap rest)
      obtain ⟨_, _, _, _, rfl, ⟨⟨d, rfl, hd⟩, -⟩, -, -⟩ := hdescribes
      rwa [← (List.cons_prefix_cons.1 hprefix).1]
termination_by text.length
decreasing_by
  · exact hshorter
  · exact Nat.lt_succ_self _

theorem squeeze_eq_replaceAll (text : List Char) : squeeze text = gap.replaceAll text [' '] :=
  (rewrites_gap text).eq_replaceAll

/-- The normal form of a text by patterns: comments are deleted, quotes become double quotes, and
each stretch of white space becomes a space. -/
theorem normal_eq_replaceAll (text : List Char) :
    normal text =
      trim (gap.replaceAll (quote.replaceAll (lineComment.replaceAll text []) ['"']) [' ']) := by
  rw [normal, dropComments_eq_replaceAll, map_doubleQuote_eq_replaceAll, squeeze_eq_replaceAll]

end Text

end CodeSurvey
