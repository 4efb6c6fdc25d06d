import Mathlib.Data.List.Chain
import Mathlib.Data.List.Infix
import CodeSurvey.Proofs.LineBreaks

/-!
# Normal forms

The normal form of a source text is its words with single spaces between them: the stretches without
white space that are left when the comments are dropped and the quotes are made double. Two texts
have one normal form exactly if these words are the same, and a text is its own normal form exactly
if nothing in it can be changed.

## Key results

- `uncomments_iff`: what is left of a text without its comments
- `normal_eq_intercalate`: the normal form of a text from its words
- `normal_eq_iff`: texts with one normal form have the same words
- `isNormal_iff`: the texts that are their own normal forms
- `canonical_normal`: normal forms are canonical
-/

namespace List

/-- Two elements never stand side by side in a list exactly if no two neighbours are these. -/
theorem not_pair_infix_iff {α : Type _} {a b : α} {l : List α} :
    ¬ [a, b] <:+: l ↔ l.IsChain fun x y => ¬ (x = a ∧ y = b) := by
  rw [isChain_iff_forall_rel_of_append_cons_cons]
  constructor
  · rintro h _ _ front back rfl ⟨rfl, rfl⟩
    exact h ⟨front, back, by simp⟩
  · rintro h ⟨front, back, rfl⟩
    exact h (show front ++ [a, b] ++ back = front ++ a :: b :: back by simp) ⟨rfl, rfl⟩

end List

namespace CodeSurvey.Text

/-! ## Comments -/

/-- Whether a character ends a line. -/
def endsLine (c : Char) : Bool :=
  c == '\r' || c == '\n'

/-- What is left of a text without its comments. A comment starts with two slashes and goes on to
the end of its line. -/
inductive Uncomments : (text kept : List Char) → Prop where
  | nil : Uncomments [] []
  | code {c : Char} {rest kept : List Char} (hcode : ¬ ['/', '/'] <+: c :: rest)
      (h : Uncomments rest kept) : Uncomments (c :: rest) (c :: kept)
  | comment {comment rest kept : List Char} (hcomment : ∀ c ∈ comment, endsLine c = false)
      (hrest : rest.head?.all endsLine = true) (h : Uncomments rest kept) :
      Uncomments ('/' :: '/' :: (comment ++ rest)) kept

/-- Within a comment, nothing is kept up to the end of the line. -/
theorem dropCommentsFrom_comment {comment rest : List Char}
    (hcomment : ∀ c ∈ comment, endsLine c = false) (hrest : rest.head?.all endsLine = true) :
    dropCommentsFrom true [] (comment ++ rest) = dropCommentsFrom false [] rest := by
  induction comment with
  | nil =>
    cases rest with
    | nil => rfl
    | cons c rest =>
      have hc : c = '\r' ∨ c = '\n' := by simpa [endsLine] using hrest
      rw [List.nil_append, dropCommentsFrom_cons_of_break true hc,
        dropCommentsFrom_cons_of_break false hc]
  | cons c comment ih =>
    rw [List.forall_mem_cons] at hcomment
    obtain ⟨hr, hn⟩ : c ≠ '\r' ∧ c ≠ '\n' := by simpa [endsLine] using hcomment.1
    rw [List.cons_append, dropCommentsFrom_cons_of_not_break true hr hn, Bool.true_or, if_pos rfl,
      ih hcomment.2]

/-- A character that starts no comment is kept. -/
theorem dropCommentsFrom_code {c : Char} {rest : List Char} (hcode : ¬ ['/', '/'] <+: c :: rest) :
    dropCommentsFrom false [] (c :: rest) = c :: dropCommentsFrom false [] rest := by
  have hstart : ¬ (c = '/' && rest.head? = some '/') = true := by
    intro h
    simp only [Bool.and_eq_true, decide_eq_true_eq] at h
    obtain ⟨rfl, hhead⟩ := h
    obtain ⟨rest, rfl⟩ := List.head?_eq_some_iff.1 hhead
    exact hcode ⟨rest, rfl⟩
  rw [dropCommentsFrom, if_neg hstart, dropCommentsFrom_eq]
  rfl

theorem Uncomments.eq_dropComments {text kept : List Char} (h : Uncomments text kept) :
    kept = dropComments text := by
  unfold dropComments
  induction h with
  | nil => rfl
  | code hcode _ ih => rw [dropCommentsFrom_code hcode, ih]
  | comment hcomment hrest _ ih =>
    rw [ih, ← dropCommentsFrom_comment hcomment hrest]
    rfl

theorem exists_uncomments (text : List Char) : ∃ kept, Uncomments text kept := by
  match text with
  | [] => exact ⟨[], .nil⟩
  | c :: rest =>
    by_cases hcode : ['/', '/'] <+: c :: rest
    · obtain ⟨back, hback⟩ := hcode
      obtain ⟨hc, hrest⟩ : '/' = c ∧ '/' :: back = rest := by simpa using hback
      -- the comment takes the rest of its line
      let next := back.dropWhile (!endsLine ·)
      have hline : back.takeWhile (!endsLine ·) ++ next = back := List.takeWhile_append_dropWhile
      have hcomment : ∀ d ∈ back.takeWhile (!endsLine ·), endsLine d = false := fun d hd => by
        simpa using List.all_eq_true.1 List.all_takeWhile d hd
      have hnext : next.head?.all endsLine = true := by
        have hhead := List.head?_dropWhile_not (!endsLine ·) back
        cases hnext : next.head? with
        | none => rfl
        | some d => simpa [next, hnext] using hhead
      have hshorter : next.length < (c :: rest).length := by
        have hle := (List.dropWhile_suffix (!endsLine ·) (l := back)).length_le
        rw [← hrest]
        exact Nat.lt_succ_of_le (Nat.le_succ_of_le hle)
      obtain ⟨kept, hkept⟩ := exists_uncomments next
      refine ⟨kept, ?_⟩
      rw [← hc, ← hrest, ← hline]
      exact .comment hcomment hnext hkept
    · obtain ⟨kept, hkept⟩ := exists_uncomments rest
      exact ⟨c :: kept, .code hcode hkept⟩
termination_by text.length
decreasing_by
  · exact hshorter
  · exact Nat.lt_succ_self _

/-- What is left of a text without its comments is one text. -/
theorem uncomments_iff {text kept : List Char} :
    Uncomments text kept ↔ kept = dropComments text := by
  constructor
  · exact Uncomments.eq_dropComments
  · rintro rfl
    obtain ⟨kept, hkept⟩ := exists_uncomments text
    rwa [← hkept.eq_dropComments]

theorem uncomments_dropComments (text : List Char) : Uncomments text (dropComments text) :=
  uncomments_iff.2 rfl

/-- A text without two slashes side by side has no comments. -/
theorem dropComments_eq_self {text : List Char} (h : ¬ ['/', '/'] <:+: text) :
    dropComments text = text := by
  have hself : Uncomments text text := by
    induction text with
    | nil => exact .nil
    | cons c rest ih =>
      rw [List.infix_cons_iff, not_or] at h
      exact .code h.1 (ih h.2)
  exact hself.eq_dropComments.symm

/-- What is kept starts with a slash only if the text does. -/
theorem Uncomments.head?_eq {text kept : List Char} (h : Uncomments text kept)
    (hkept : kept.head? = some '/') : text.head? = some '/' := by
  cases h with
  | nil => exact hkept
  | code _ _ => exact hkept
  | comment _ _ _ => rfl

/-- Dropping comments brings no slashes together. -/
theorem Uncomments.not_infix_slashes {text kept : List Char} (h : Uncomments text kept) :
    ¬ ['/', '/'] <:+: kept := by
  induction h with
  | nil => simp
  | @code c rest kept hcode hrest ih =>
    rw [List.infix_cons_iff, not_or]
    refine ⟨fun hstart => hcode ?_, ih⟩
    obtain ⟨back, hback⟩ := hstart
    obtain ⟨rfl, rfl⟩ : '/' = c ∧ '/' :: back = kept := by simpa using hback
    obtain ⟨rest, rfl⟩ := List.head?_eq_some_iff.1 (hrest.head?_eq rfl)
    exact ⟨rest, rfl⟩
  | comment _ _ _ ih => exact ih

/-! ## Quotes -/

theorem doubleQuote_eq_slash_iff {c : Char} : doubleQuote c = '/' ↔ c = '/' := by
  unfold doubleQuote
  split
  · subst_vars
    decide
  · rfl

theorem doubleQuote_ne (c : Char) : doubleQuote c ≠ '\x27' := by
  unfold doubleQuote
  split
  · decide
  · assumption

theorem quote_not_mem_map (text : List Char) : '\x27' ∉ text.map doubleQuote := by
  intro h
  obtain ⟨c, -, hc⟩ := List.mem_map.1 h
  exact doubleQuote_ne c hc

theorem map_doubleQuote_eq_self {text : List Char} (h : '\x27' ∉ text) :
    text.map doubleQuote = text := by
  have hsame : text.map doubleQuote = text.map id := by
    refine List.map_congr_left fun c hc => if_neg ?_
    rintro rfl
    exact h hc
  rw [hsame, List.map_id]

theorem infix_map_doubleQuote_iff {text : List Char} :
    ['/', '/'] <:+: text.map doubleQuote ↔ ['/', '/'] <:+: text := by
  constructor
  · intro h
    obtain ⟨slashes, hwithin, hslashes⟩ := List.infix_map_iff.1 h
    obtain ⟨c, d, rfl⟩ : ∃ c d, slashes = [c, d] :=
      List.length_eq_two.1 (by simpa using (congrArg List.length hslashes).symm)
    obtain ⟨hc, hd⟩ : '/' = doubleQuote c ∧ '/' = doubleQuote d := by simpa using hslashes
    rwa [doubleQuote_eq_slash_iff.1 hc.symm, doubleQuote_eq_slash_iff.1 hd.symm] at hwithin
  · intro h
    exact h.map doubleQuote

/-! ## Words -/

/-- The words of a text: its longest stretches without white space, from left to right. -/
def words (text : List Char) : List (List Char) :=
  (text.splitOnP isBlank).filter (!·.isEmpty)

/-- The words of a source text, without its comments and with double quotes only. -/
def codeWords (text : List Char) : List (List Char) :=
  words ((dropComments text).map doubleQuote)

/-- A stretch of text without white space. -/
def IsWord (word : List Char) : Prop :=
  word ≠ [] ∧ ∀ c ∈ word, isBlank c = false

/-- A text is a run without white space, or such a run with white space behind it and more text. -/
@[elab_as_elim]
theorem run_induction {p : List Char → Prop}
    (run : ∀ run, (∀ c ∈ run, isBlank c = false) → p run)
    (gap : ∀ run c rest, (∀ d ∈ run, isBlank d = false) → isBlank c = true → p rest →
      p (run ++ c :: rest))
    (text : List Char) : p text := by
  have hbehind : ∀ front : List Char, (∀ c ∈ front, isBlank c = false) → p (front ++ text) := by
    induction text with
    | nil =>
      intro front hfront
      rw [List.append_nil]
      exact run front hfront
    | cons c rest ih =>
      intro front hfront
      by_cases hc : isBlank c = true
      · exact gap front c rest hfront hc (ih [] (List.forall_mem_nil _))
      · rw [List.append_cons]
        refine ih _ fun d hd => ?_
        rcases List.mem_append.1 hd with hd | hd
        · exact hfront d hd
        · rw [List.mem_singleton.1 hd]
          simpa using hc
  exact hbehind [] (List.forall_mem_nil _)

@[simp] theorem words_nil : words [] = [] := by
  simp [words]

/-- The words in front of white space and those behind it are all words of a text. -/
theorem words_append_cons {c : Char} (hc : isBlank c = true) (front back : List Char) :
    words (front ++ c :: back) = words front ++ words back := by
  rw [words, List.splitOnP_append_cons front back hc, List.filter_append]
  rfl

theorem words_of_isWord {word : List Char} (h : IsWord word) : words word = [word] := by
  rw [words, List.splitOnP_eq_singleton h.2, List.filter_cons_of_pos (by simpa using h.1),
    List.filter_nil]

/-- A run is one word if it is not empty. -/
theorem words_run {run : List Char} (h : ∀ c ∈ run, isBlank c = false) :
    words run = if run = [] then [] else [run] := by
  split
  · simp_all
  · rename_i hne
    exact words_of_isWord ⟨hne, h⟩

/-- Words hold no white space, and each is a stretch of the text. -/
theorem isWord_of_mem_words {text word : List Char} (h : word ∈ words text) :
    IsWord word ∧ word <:+: text := by
  induction text using run_induction with
  | run run hrun =>
    rw [words_run hrun] at h
    split at h
    · cases h
    · rename_i hne
      rw [List.mem_singleton.1 h]
      exact ⟨⟨hne, hrun⟩, List.infix_rfl⟩
  | gap run c rest hrun hc ih =>
    rw [words_append_cons hc, words_run hrun, List.mem_append] at h
    rcases h with h | h
    · split at h
      · cases h
      · rename_i hne
        rw [List.mem_singleton.1 h]
        exact ⟨⟨hne, hrun⟩, (List.prefix_append run _).isInfix⟩
    · obtain ⟨hword, hwithin⟩ := ih h
      exact ⟨hword, hwithin.trans ⟨run ++ [c], [], by simp⟩⟩

section Intercalate

variable {texts : List (List Char)} (h : ∀ word ∈ texts, IsWord word)

include h

/-- Words with single spaces between them are found again. -/
theorem words_intercalate : words ([' '].intercalate texts) = texts := by
  induction texts with
  | nil => rw [List.intercalate_nil, words_nil]
  | cons word texts ih =>
    rw [List.forall_mem_cons] at h
    cases texts with
    | nil => rw [List.intercalate_singleton, words_of_isWord h.1]
    | cons next texts =>
      rw [List.intercalate_cons_cons, List.append_assoc, List.singleton_append,
        words_append_cons (by decide), words_of_isWord h.1, ih h.2, List.singleton_append]

omit h in
theorem eq_or_mem_of_mem_intercalate {c : Char} (hc : c ∈ [' '].intercalate texts) :
    c = ' ' ∨ ∃ word ∈ texts, c ∈ word := by
  induction texts with
  | nil => cases hc
  | cons word texts ih =>
    cases texts with
    | nil =>
      rw [List.intercalate_singleton] at hc
      exact .inr ⟨word, List.mem_cons_self, hc⟩
    | cons next texts =>
      rw [List.intercalate_cons_cons, List.mem_append, List.mem_append, List.mem_singleton] at hc
      rcases hc with (hc | hc) | hc
      · exact .inr ⟨word, List.mem_cons_self, hc⟩
      · exact .inl hc
      · refine (ih hc).imp_right fun ⟨other, hother, hmem⟩ => ?_
        exact ⟨other, List.mem_cons_of_mem _ hother, hmem⟩

/-- What holds of neighbours within words, and of their characters next to a space, holds of all
neighbours in words with single spaces between them. -/
theorem isChain_intercalate {r : Char → Char → Prop}
    (hwords : ∀ word ∈ texts, word.IsChain r ∧ ∀ c ∈ word, r c ' ' ∧ r ' ' c) :
    ([' '].intercalate texts).IsChain r := by
  induction texts with
  | nil => exact List.IsChain.nil
  | cons word texts ih =>
    rw [List.forall_mem_cons] at h hwords
    cases texts with
    | nil =>
      rw [List.intercalate_singleton]
      exact hwords.1.1
    | cons next texts =>
      obtain ⟨d, rest, hnext⟩ := List.exists_cons_of_ne_nil (h.2 next List.mem_cons_self).1
      have hhead : ([' '].intercalate (next :: texts)).head? = some d := by
        cases texts <;> simp [hnext, List.intercalate_singleton, List.intercalate_cons_cons]
      have hd : r ' ' d :=
        ((hwords.2 next List.mem_cons_self).2 d (hnext ▸ List.mem_cons_self)).2
      rw [List.intercalate_cons_cons, List.append_assoc, List.singleton_append,
        List.isChain_append, List.isChain_cons]
      refine ⟨hwords.1.1, ⟨?_, ih h.2 hwords.2⟩, ?_⟩
      · simp only [hhead, Option.mem_some_iff, forall_eq']
        exact hd
      · intro c hc
        simp only [List.head?_cons, Option.mem_some_iff, forall_eq']
        exact (hwords.1.2 c (List.mem_of_getLast? hc)).1

end Intercalate

/-! ## The normal form of a text -/

theorem trimEnd_append_run {run : List Char} (h : ∀ c ∈ run, isBlank c = false)
    (rest : List Char) : trimEnd (run ++ rest) = run ++ trimEnd rest := by
  induction run with
  | nil => rfl
  | cons c run ih =>
    rw [List.forall_mem_cons] at h
    rw [List.cons_append, trimEnd_cons_of_not_blank h.1, ih h.2, List.cons_append]

theorem squeezeFrom_append_run (inside : Bool) {run : List Char} (hne : run ≠ [])
    (h : ∀ c ∈ run, isBlank c = false) (rest : List Char) :
    squeezeFrom inside [] (run ++ rest) = run ++ squeezeFrom false [] rest := by
  induction run generalizing inside with
  | nil => exact absurd rfl hne
  | cons c run ih =>
    rw [List.forall_mem_cons] at h
    rw [List.cons_append, squeezeFrom_cons, if_neg (by simp [h.1])]
    cases run with
    | nil => rfl
    | cons d run => exact congrArg (List.cons c) (ih false (List.cons_ne_nil d run) h.2)

/-- Squeezed white space stands between words only. -/
theorem trimEnd_squeezeFrom (text : List Char) :
    trimEnd (squeezeFrom true [] text) = [' '].intercalate (words text) := by
  induction text using run_induction with
  | run run hrun =>
    rw [words_run hrun]
    split
    · subst_vars
      rfl
    · rename_i hne
      have hsqueeze : squeezeFrom true [] (run ++ []) = run ++ [] :=
        squeezeFrom_append_run true hne hrun []
      have htrim : trimEnd (run ++ []) = run ++ [] := trimEnd_append_run hrun []
      rw [List.append_nil] at hsqueeze htrim
      rw [hsqueeze, htrim, List.intercalate_singleton]
  | gap run c rest hrun hc ih =>
    rw [words_append_cons hc, words_run hrun]
    split
    · -- white space in front of all words
      subst_vars
      rw [List.nil_append, List.nil_append, squeezeFrom_cons, if_pos hc, if_pos rfl,
        List.nil_append, ih]
    · rename_i hne
      rw [squeezeFrom_append_run true hne hrun, trimEnd_append_run hrun, squeezeFrom_cons,
        if_pos hc, if_neg (by decide), List.singleton_append, trimEnd_cons_of_blank (by decide), ih,
        List.singleton_append]
      -- the space is kept if a word follows
      cases hwords : words rest with
      | nil => simp
      | cons next texts =>
        have hnext := (isWord_of_mem_words (hwords ▸ List.mem_cons_self : next ∈ words rest)).1
        rw [if_neg, List.intercalate_cons_cons, List.append_assoc, List.singleton_append]
        cases texts <;> simp [hnext.1, List.intercalate_singleton, List.intercalate_cons_cons]

/-- The normal form of a text is its words with single spaces between them. -/
theorem normal_eq_intercalate (text : List Char) :
    normal text = [' '].intercalate (codeWords text) := by
  rw [normal_eq_tailNormal, tailNormal, trimEnd_squeezeFrom]
  rfl

theorem words_normal (text : List Char) : words (normal text) = codeWords text := by
  rw [normal_eq_intercalate]
  exact words_intercalate fun word hword => (isWord_of_mem_words hword).1

/-- Texts with one normal form have the same words. -/
theorem normal_eq_iff {text other : List Char} :
    normal text = normal other ↔ codeWords text = codeWords other := by
  constructor
  · intro h
    rw [← words_normal, h, words_normal]
  · intro h
    rw [normal_eq_intercalate, h, normal_eq_intercalate]

/-! ## Texts in normal form -/

/-- A text in which nothing is left to be changed. -/
structure IsNormal (text : List Char) : Prop where
  no_comment : ¬ ['/', '/'] <:+: text
  no_quote : '\x27' ∉ text
  blank_eq : ∀ c ∈ text, isBlank c = true → c = ' '
  single : ¬ [' ', ' '] <:+: text
  head?_ne : text.head? ≠ some ' '
  getLast?_ne : text.getLast? ≠ some ' '

/-- Nothing is left to be changed in a normal form. -/
theorem isNormal_normal (text : List Char) : IsNormal (normal text) := by
  have hwords : ∀ word ∈ codeWords text, IsWord word ∧ ¬ ['/', '/'] <:+: word := by
    intro word hword
    obtain ⟨hisWord, hwithin⟩ := isWord_of_mem_words hword
    refine ⟨hisWord, fun hslashes => (uncomments_dropComments text).not_infix_slashes ?_⟩
    exact infix_map_doubleQuote_iff.1 (hslashes.trans hwithin)
  have hmem := fun c => @eq_or_mem_of_mem_intercalate (codeWords text) c
  rw [← normal_eq_intercalate] at hmem
  constructor
  case no_comment =>
    rw [normal_eq_intercalate, List.not_pair_infix_iff]
    refine isChain_intercalate (fun word hword => (hwords word hword).1) fun word hword => ?_
    exact ⟨List.not_pair_infix_iff.1 (hwords word hword).2, by simp⟩
  case no_quote =>
    intro hquote
    rcases hmem _ hquote with h | ⟨word, hword, hquote⟩
    · exact absurd h (by decide)
    · exact quote_not_mem_map _ ((isWord_of_mem_words hword).2.subset hquote)
  case blank_eq =>
    intro c hc hblank
    refine (hmem c hc).resolve_right fun ⟨word, hword, hmem⟩ => ?_
    rw [(hwords word hword).1.2 c hmem] at hblank
    cases hblank
  case single =>
    have hspace : ∀ word ∈ codeWords text, ∀ c ∈ word, c ≠ ' ' := by
      rintro word hword _ hc rfl
      exact absurd ((hwords word hword).1.2 ' ' hc) (by decide)
    rw [normal_eq_intercalate, List.not_pair_infix_iff]
    refine isChain_intercalate (fun word hword => (hwords word hword).1) fun word hword => ?_
    have hword := hspace word hword
    refine ⟨List.not_pair_infix_iff.1 fun hwithin => ?_, fun c hc => ⟨?_, ?_⟩⟩
    · exact hword ' ' (hwithin.subset List.mem_cons_self) rfl
    · exact fun h => hword c hc h.1
    · exact fun h => hword c hc h.2
  case head?_ne => exact head?_trim_ne _ (by decide)
  case getLast?_ne => exact getLast?_trimEnd_ne _ (by decide)

/-- A text with single spaces between its words is made of them. -/
theorem intercalate_words {text : List Char} (hblank : ∀ c ∈ text, isBlank c = true → c = ' ')
    (hsingle : ¬ [' ', ' '] <:+: text) (hhead : text.head? ≠ some ' ')
    (hlast : text.getLast? ≠ some ' ') : [' '].intercalate (words text) = text := by
  induction text using run_induction with
  | run run hrun =>
    rw [words_run hrun]
    split
    · subst_vars
      rfl
    · exact List.intercalate_singleton
  | gap run c rest hrun hc ih =>
    obtain rfl := hblank c (by simp) hc
    have hne : run ≠ [] := by
      rintro rfl
      exact hhead rfl
    have hrest : rest ≠ [] := by
      rintro rfl
      simp at hlast
    have hdouble : rest.head? ≠ some ' ' := by
      intro h
      obtain ⟨back, rfl⟩ := List.head?_eq_some_iff.1 h
      exact hsingle ⟨run, back, by simp⟩
    have hback : rest <:+: run ++ ' ' :: rest := ⟨run ++ [' '], [], by simp⟩
    have hend : rest.getLast? ≠ some ' ' := fun h => hlast (by
      simp [List.getLast?_append, List.getLast?_cons, h])
    have ih := ih (fun c hc => hblank c (hback.subset hc)) (fun h => hsingle (h.trans hback))
      hdouble hend
    rw [words_append_cons hc, words_run hrun, if_neg hne, List.singleton_append]
    cases hwords : words rest with
    | nil => exact absurd (by rw [← ih, hwords, List.intercalate_nil]) hrest
    | cons next texts =>
      rw [List.intercalate_cons_cons, ← hwords, ih, List.append_assoc, List.singleton_append]

/-- The texts that are their own normal forms. -/
theorem isNormal_iff {text : List Char} : IsNormal text ↔ normal text = text := by
  constructor
  · intro h
    rw [normal_eq_intercalate, codeWords, dropComments_eq_self h.no_comment,
      map_doubleQuote_eq_self h.no_quote]
    exact intercalate_words h.blank_eq h.single h.head?_ne h.getLast?_ne
  · intro h
    rw [← h]
    exact isNormal_normal text

/-- Normal forms are canonical: the normal form of a text is the words that are left without its
comments, with double quotes and single spaces between them; nothing in it is left to be changed;
and texts have one normal form exactly if these words are the same. -/
theorem canonical_normal (text : List Char) :
    (∀ kept, Uncomments text kept ↔ kept = dropComments text) ∧
      normal text = [' '].intercalate (words ((dropComments text).map doubleQuote)) ∧
      IsNormal (normal text) ∧ normal (normal text) = normal text ∧
      (IsNormal text ↔ normal text = text) ∧
      ∀ other, normal text = normal other ↔
        words ((dropComments text).map doubleQuote) =
          words ((dropComments other).map doubleQuote) :=
  ⟨fun _ => uncomments_iff, normal_eq_intercalate text, isNormal_normal text,
    isNormal_iff.1 (isNormal_normal text), isNormal_iff, fun _ => normal_eq_iff⟩

end CodeSurvey.Text
