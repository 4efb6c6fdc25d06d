import CodeSurvey.Pattern.Source
import CodeSurvey.Proofs.LineBreaks
import CodeSurvey.Proofs.PatternLanguage

/-!
# Patterns and line breaks

The search for a pattern in a text and in the same text with a carriage return before every line
feed. Between the two characters of a line break the second search comes to a place that the first
one does not know. What it finds there depends on what the pattern goes on with; `Seam` names the
cases, and `seam?` reads off a pattern which one holds in front of it.

## Key results

- `Mirrors.one` / `Mirrors.many`: characters and runs that do not tell the texts apart
- `Pattern.mirrors_before`: a pattern finds the same in both texts if `seam?` says so
-/

namespace CodeSurvey

open Text (crlf shift)

/-- An outcome with its places shifted. -/
def Outcome.shift (text : List Char) (outcome : Outcome) : Outcome :=
  ⟨Text.shift text outcome.stop, outcome.keptFrom.map (Text.shift text),
    outcome.keptTo.map (Text.shift text)⟩

/-- What a search that has come to a line break finds before the carriage return, before the line
feed and behind both. -/
inductive Seam where
  /-- Nothing is known. -/
  | loose
  /-- The same before both characters. -/
  | even
  /-- The same at all three places. -/
  | absorbing
  /-- Nothing before either character. -/
  | inLine
deriving DecidableEq

namespace Seam

/-- What is known of a search at a line break, the carriage return of which stands at a place. -/
def Holds (search : Search) (place : Nat) : Seam → Prop
  | loose => True
  | even => search.outcome (place + 1) = search.outcome place
  | absorbing => search.outcome place = search.outcome (place + 2) ∧
      search.outcome (place + 1) = search.outcome (place + 2)
  | inLine => search.outcome place = none ∧ search.outcome (place + 1) = none

/-- What is known of two searches of which one is tried first. -/
def meet (seam other : Seam) : Seam :=
  if seam = loose ∨ other = loose then loose else if seam = other then seam else even

/-- What is known in front of a run, which takes line breaks or stops at them. There is none if
nothing is known behind a run that takes them. -/
def beforeRun (takesBreaks : Bool) : Seam → Option Seam
  | loose => if takesBreaks then none else some loose
  | inLine => some (if takesBreaks then absorbing else inLine)
  | even | absorbing => some even

theorem Holds.even_of_ne_loose {seam : Seam} {search : Search} {place : Nat}
    (h : seam.Holds search place) (hne : seam ≠ loose) : Seam.even.Holds search place := by
  cases seam with
  | loose => exact absurd rfl hne
  | even => exact h
  | absorbing => exact h.2.trans h.1.symm
  | inLine => exact h.2.trans h.1.symm

theorem Holds.meet {seam other : Seam} {first second : Search} {place : Nat}
    (hfirst : seam.Holds first place) (hsecond : other.Holds second place) :
    (seam.meet other).Holds (first.orElse second) place := by
  -- whatever is known of both, they find the same before the two characters of a line break
  have heven : ¬(seam = loose ∨ other = loose) → Seam.even.Holds (first.orElse second) place := by
    intro hknown
    rw [not_or] at hknown
    have hhere := hfirst.even_of_ne_loose hknown.1
    have hthere := hsecond.even_of_ne_loose hknown.2
    show Option.or _ _ = Option.or _ _
    rw [hhere, hthere]
  unfold Seam.meet
  split
  · trivial
  · rename_i hknown
    split
    · rename_i hsame
      subst hsame
      cases seam with
      | loose => trivial
      | even => exact heven hknown
      | absorbing =>
        show Option.or _ _ = Option.or _ _ ∧ Option.or _ _ = Option.or _ _
        rw [hfirst.1, hfirst.2, hsecond.1, hsecond.2]
        exact ⟨rfl, rfl⟩
      | inLine =>
        show Option.or _ _ = none ∧ Option.or _ _ = none
        rw [hfirst.1, hfirst.2, hsecond.1, hsecond.2]
        exact ⟨rfl, rfl⟩
    · exact heven hknown

end Seam

/-- A search of a text with carriage returns finds what another search of the text without finds at
the same places, and `seam` says what it finds at line breaks. -/
structure Mirrors (text : List Char) (seam : Seam) (search mirrored : Search) : Prop where
  outcome : ∀ front rest, text = front ++ rest →
    mirrored.outcome (crlf front).length = (search.outcome front.length).map (Outcome.shift text)
  seam : ∀ front rest, text = front ++ '\n' :: rest → seam.Holds mirrored (crlf front).length

namespace Mirrors

open Pattern

variable {text : List Char} {seam : Seam} {search mirrored : Search}

theorem done (text : List Char) : Mirrors text .loose .done .done := by
  refine ⟨fun front rest htext => ?_, fun _ _ _ => trivial⟩
  subst htext
  show some _ = some _
  rw [Outcome.shift, Text.shift_append]
  rfl

theorem closing (h : Mirrors text seam search mirrored) :
    Mirrors text .loose search.closing mirrored.closing := by
  refine ⟨fun front rest htext => ?_, fun _ _ _ => trivial⟩
  have hshift : shift text front.length = (crlf front).length := by rw [htext, Text.shift_append]
  show (mirrored.outcome _).map _ = ((search.outcome _).map _).map _
  rw [h.outcome front rest htext, Option.map_map, Option.map_map]
  congr 1
  funext outcome
  simp [Outcome.shift, hshift]

/-- Where a search starts to keep text matters only if it finds something. -/
theorem opening (h : Mirrors text seam search mirrored) :
    Mirrors text (if seam = .inLine then .inLine else .loose) search.opening mirrored.opening := by
  refine ⟨fun front rest htext => ?_, fun front rest htext => ?_⟩
  · have hshift : shift text front.length = (crlf front).length := by rw [htext, Text.shift_append]
    show (mirrored.outcome _).map _ = ((search.outcome _).map _).map _
    rw [h.outcome front rest htext, Option.map_map, Option.map_map]
    congr 1
    funext outcome
    simp [Outcome.shift, hshift]
  · split
    · rename_i hseam
      subst hseam
      obtain ⟨hreturn, hfeed⟩ := h.seam front rest htext
      show (mirrored.outcome _).map _ = none ∧ (mirrored.outcome _).map _ = none
      rw [hreturn, hfeed]
      exact ⟨rfl, rfl⟩
    · trivial

theorem orElse {other : Seam} {preferred mirrored' : Search}
    (hfirst : Mirrors text seam preferred mirrored')
    (hsecond : Mirrors text other search mirrored) :
    Mirrors text (seam.meet other) (preferred.orElse search) (mirrored'.orElse mirrored) := by
  refine ⟨fun front rest htext => ?_, fun front rest htext =>
    (hfirst.seam front rest htext).meet (hsecond.seam front rest htext)⟩
  show Option.or _ _ = (Option.or _ _).map _
  rw [hfirst.outcome front rest htext, hsecond.outcome front rest htext, Option.map_or]

/-! ### Single characters -/

section Characters

variable (set : Char → Bool) (front rest : List Char)

/-- Sets that do not tell the characters of a line break apart do not tell the texts apart. -/
theorem isIn_crlf (hset : set '\r' = set '\n') :
    isIn set (crlf (front ++ rest)).toArray (crlf front).length =
      isIn set (front ++ rest).toArray front.length := by
  rw [Text.crlf_append, isIn_append, isIn_append, Text.head?_crlf]
  cases rest with
  | nil => rfl
  | cons c rest =>
    show set (if c = '\n' then '\r' else c) = set c
    split
    · rename_i hc
      rw [hc, hset]
    · rfl

theorem isIn_return :
    isIn set (crlf (front ++ '\n' :: rest)).toArray (crlf front).length = set '\r' := by
  rw [Text.crlf_append, Text.crlf_cons_break, isIn_append]
  rfl

theorem isIn_feed :
    isIn set (crlf (front ++ '\n' :: rest)).toArray ((crlf front).length + 1) = set '\n' := by
  have htext : crlf (front ++ '\n' :: rest) = (crlf front ++ ['\r']) ++ '\n' :: crlf rest := by
    simp
  have hlength : (crlf front).length + 1 = (crlf front ++ ['\r']).length := by simp
  rw [htext, hlength, isIn_append]
  rfl

end Characters

/-- Behind a character the searches go on at places that belong together. -/
theorem outcome_next (h : Mirrors text seam search mirrored) {front rest : List Char} {c : Char}
    (htext : text = front ++ c :: rest) :
    mirrored.outcome ((crlf front).length + (crlf [c]).length) =
      (search.outcome (front.length + 1)).map (Outcome.shift text) := by
  have hnext := h.outcome (front ++ [c]) rest (by simp [htext])
  rwa [Text.crlf_append, List.length_append, List.length_append, List.length_singleton] at hnext

/-- A set of which a line break is no part is not met at one; a set of which it is a part takes both
characters of it. -/
theorem one (h : Mirrors text seam search mirrored) (set : Char → Bool)
    (hset : set '\r' = set '\n') (hbreak : set '\n' = true → seam = .absorbing) :
    Mirrors text (if set '\n' then .even else .inLine)
      (before text.toArray (.one set) search) (before (crlf text).toArray (.one set) mirrored) := by
  have hfeed : ∀ front rest, text = front ++ '\n' :: rest → set '\n' = true →
      mirrored.outcome ((crlf front).length + 1) = mirrored.outcome ((crlf front).length + 2) := by
    intro front rest htext hmem
    obtain rfl := hbreak hmem
    exact (h.seam front rest htext).2
  refine ⟨fun front rest htext => ?_, fun front rest htext => ?_⟩
  · have hin := isIn_crlf set front rest hset
    rw [← htext] at hin
    show (if isIn _ _ _ then _ else none) = (if isIn _ _ _ then _ else none).map _
    rw [hin]
    split
    · rename_i hmem
      rw [htext] at hmem
      obtain ⟨c, back, rfl, hc⟩ := exists_of_isIn hmem
      have hnext := h.outcome_next htext
      by_cases hn : c = '\n'
      · -- the carriage return is taken alone, but behind it the same is found as behind both
        subst hn
        exact (hfeed front back htext hc).trans hnext
      · rwa [Text.crlf_cons_of_ne hn] at hnext
    · rfl
  · have hreturn := isIn_return set front rest
    have hfeed' := isIn_feed set front rest
    rw [← htext] at hreturn hfeed'
    by_cases hmem : set '\n' = true
    · rw [if_pos hmem]
      show (if isIn _ _ _ then _ else none) = (if isIn _ _ _ then _ else none)
      rw [hreturn, hfeed', hset, if_pos hmem, if_pos hmem]
      exact (hfeed front rest htext hmem).symm
    · rw [if_neg hmem]
      show (if isIn _ _ _ then _ else none) = none ∧ (if isIn _ _ _ then _ else none) = none
      rw [hreturn, hfeed', hset, if_neg hmem, if_neg hmem]
      exact ⟨rfl, rfl⟩

/-! ### Runs -/

/-- What a run that takes line breaks or stops at them finds at one. -/
theorem outcome_many_break (set : Char → Bool) (mirrored : Search) {front rest : List Char}
    (htext : text = front ++ '\n' :: rest) :
    let run := before (crlf text).toArray (.many set) mirrored
    run.outcome (crlf front).length =
        Option.or (if set '\r' then run.outcome ((crlf front).length + 1) else none)
          (mirrored.outcome (crlf front).length) ∧
      run.outcome ((crlf front).length + 1) =
        Option.or (if set '\n' then run.outcome ((crlf front).length + 2) else none)
          (mirrored.outcome ((crlf front).length + 1)) := by
  subst htext
  constructor
  · rw [outcome_before_many (by simp), isIn_return]
  · rw [outcome_before_many (by simp), isIn_feed]

/-- At its end a text has nothing left for a run. -/
theorem outcome_many_end (set : Char → Bool) (next : Search) (text : List Char) :
    (before text.toArray (.many set) next).outcome text.length = next.outcome text.length := by
  have hend : isIn set (text ++ []).toArray text.length = false := isIn_append text []
  rw [List.append_nil] at hend
  rw [outcome_before_many (by simp), hend]
  rfl

/-- A run finds the same in both texts if what comes behind it finds the same before both characters
of a line break that the run can take. -/
theorem outcome_many (h : Mirrors text seam search mirrored) {set : Char → Bool}
    (hset : set '\r' = set '\n') (hbreak : set '\n' = true → seam ≠ .loose)
    (front rest : List Char) (htext : text = front ++ rest) :
    (before (crlf text).toArray (.many set) mirrored).outcome (crlf front).length =
      ((before text.toArray (.many set) search).outcome front.length).map (Outcome.shift text) := by
  -- the run takes the next character or ends here
  induction rest generalizing front with
  | nil =>
    have hhere := h.outcome front [] htext
    obtain rfl : text = front := by rw [htext, List.append_nil]
    rw [outcome_many_end, outcome_many_end]
    exact hhere
  | cons c rest ih =>
    have hhere := h.outcome front (c :: rest) htext
    have hnext := ih (front ++ [c]) (by simp [htext])
    rw [Text.crlf_append, List.length_append, List.length_append, List.length_singleton] at hnext
    have hin := isIn_crlf set front (c :: rest) hset
    rw [← htext] at hin
    have hle : front.length ≤ text.toArray.size := by simp [htext]
    have hle' : (crlf front).length ≤ (crlf text).toArray.size := by simp [htext]
    rw [outcome_before_many hle, outcome_before_many hle', hin, Option.map_or, ← hhere]
    split
    · rename_i hmem
      have hc : set c = true := by
        rw [htext, isIn_append] at hmem
        exact hmem
      by_cases hn : c = '\n'
      · -- what is found between the two characters is found before both
        subst hn
        obtain ⟨-, hfeed⟩ := outcome_many_break set mirrored htext
        have heven := (h.seam front rest htext).even_of_ne_loose (hbreak hc)
        rw [hfeed, if_pos hc, heven, Option.or_assoc, Option.or_self]
        exact congrArg (Option.or · _) hnext
      · rw [Text.crlf_cons_of_ne hn] at hnext
        exact congrArg (Option.or · _) hnext
    · rfl

theorem many (h : Mirrors text seam search mirrored) {set : Char → Bool}
    (hset : set '\r' = set '\n') {ahead : Seam} (hseam : seam.beforeRun (set '\n') = some ahead) :
    Mirrors text ahead (before text.toArray (.many set) search)
      (before (crlf text).toArray (.many set) mirrored) := by
  have hbreak : set '\n' = true → seam ≠ .loose := by
    rintro hmem rfl
    rw [hmem] at hseam
    exact nomatch hseam
  refine ⟨h.outcome_many hset hbreak, fun front rest htext => ?_⟩
  have hbehind := h.seam front rest htext
  obtain ⟨hreturn, hfeed⟩ := outcome_many_break set mirrored htext
  rw [hset] at hreturn
  by_cases hmem : set '\n' = true
  · rw [if_pos hmem] at hreturn hfeed
    have heven : Seam.even.Holds (before (crlf text).toArray (.many set) mirrored)
        (crlf front).length := by
      have hends := hbehind.even_of_ne_loose (hbreak hmem)
      show _ = _
      rw [hreturn, hfeed, hends, Option.or_assoc, Option.or_self]
    rw [hmem] at hseam
    cases seam with
    | loose => exact nomatch hseam
    | inLine =>
      -- nothing ends before either character, so the run goes on behind both
      obtain rfl := Option.some.inj hseam
      rw [hbehind.2, Option.or_none] at hfeed
      rw [hbehind.1, Option.or_none] at hreturn
      exact ⟨hreturn.trans hfeed, hfeed⟩
    | even =>
      obtain rfl := Option.some.inj hseam
      exact heven
    | absorbing =>
      obtain rfl := Option.some.inj hseam
      exact heven
  · rw [if_neg hmem, Option.none_or] at hreturn hfeed
    rw [Bool.not_eq_true] at hmem
    rw [hmem] at hseam
    cases seam with
    | loose =>
      obtain rfl := Option.some.inj hseam
      trivial
    | inLine =>
      obtain rfl := Option.some.inj hseam
      exact ⟨hreturn.trans hbehind.1, hfeed.trans hbehind.2⟩
    | even =>
      obtain rfl := Option.some.inj hseam
      exact hfeed.trans (hbehind.trans hreturn.symm)
    | absorbing =>
      obtain rfl := Option.some.inj hseam
      exact hfeed.trans ((hbehind.even_of_ne_loose (by decide)).trans hreturn.symm)

/-! ### Words -/

/-- The characters of a word are met one by one. -/
theorem before_word_cons (text : Array Char) (c : Char) (characters : List Char) (next : Search) :
    before text (.word (c :: characters)) next =
      before text (.one (· == c)) (before text (.word characters) next) := by
  show Search.mk _ = Search.mk _
  congr 1
  funext place
  show (if goesOnWith _ _ _ then _ else none) =
    if isIn _ _ _ then if goesOnWith _ _ _ then _ else none else none
  rw [goesOnWith, isIn]
  have hlength : place + (c :: characters).length = place + 1 + characters.length := by
    rw [List.length_cons]
    omega
  rw [hlength]
  cases text[place]? with
  | none => rfl
  | some found => by_cases hc : found = c <;> simp [hc]

/-- A word without line breaks is met in one line. -/
theorem word (h : Mirrors text seam search mirrored) {characters : List Char}
    (hr : '\r' ∉ characters) (hn : '\n' ∉ characters) :
    Mirrors text (if characters.isEmpty then seam else .inLine)
      (before text.toArray (.word characters) search)
      (before (crlf text).toArray (.word characters) mirrored) := by
  induction characters with
  | nil => exact h
  | cons c rest ih =>
    rw [List.mem_cons, not_or] at hr hn
    have hfeed : ('\n' == c) = false := by simpa using hn.1
    have hreturn : ('\r' == c) = false := by simpa using hr.1
    have hfirst := (ih hr.2 hn.2).one (· == c) (hreturn.trans hfeed.symm)
      fun hmem => absurd (hfeed.symm.trans hmem) (by decide)
    rw [if_neg (by simp [hfeed])] at hfirst
    rw [before_word_cons, before_word_cons]
    exact hfirst

end Mirrors

/-! ## Patterns -/

namespace Pattern

/-- What is known of the search for a pattern at a line break, if something is known of the search
that comes behind it. There is none if the pattern tells the two texts apart. -/
def seam? : Pattern → Seam → Option Seam
  | word characters, seam =>
    if characters.contains '\r' || characters.contains '\n' then none
    else some (if characters.isEmpty then seam else .inLine)
  | one set, seam =>
    if set '\r' != set '\n' || (set '\n' && seam != .absorbing) then none
    else some (if set '\n' then .even else .inLine)
  | many set, seam => if set '\r' != set '\n' then none else seam.beforeRun (set '\n')
  | seq first second, seam => (second.seam? seam).bind first.seam?
  | either first second, seam =>
    (first.seam? seam).bind fun here => (second.seam? seam).map here.meet
  | capture inner, _ =>
    (inner.seam? .loose).map fun seam => if seam = .inLine then .inLine else .loose

/-- A pattern finds the same in both texts. -/
theorem mirrors_before {text : List Char} {p : Pattern} {seam ahead : Seam}
    (hseam : p.seam? seam = some ahead) {search mirrored : Search}
    (h : Mirrors text seam search mirrored) :
    Mirrors text ahead (before text.toArray p search) (before (crlf text).toArray p mirrored) := by
  -- from the last part of the pattern to the first: what is known in front of a part is what the
  -- part before it needs
  induction p generalizing seam ahead search mirrored with
  | word characters =>
    simp only [seam?, Option.ite_none_left_eq_some, Option.some.injEq, Bool.or_eq_true,
      List.contains_iff_mem, not_or] at hseam
    obtain ⟨⟨hr, hn⟩, rfl⟩ := hseam
    exact h.word hr hn
  | one set =>
    simp only [seam?, Option.ite_none_left_eq_some, Option.some.injEq, Bool.or_eq_true,
      Bool.and_eq_true, bne_iff_ne, not_or, not_and, not_not] at hseam
    obtain ⟨⟨hset, hbreak⟩, rfl⟩ := hseam
    exact h.one set hset hbreak
  | many set =>
    simp only [seam?, Option.ite_none_left_eq_some, bne_iff_ne, not_not] at hseam
    exact h.many hseam.1 hseam.2
  | seq first second ihfirst ihsecond =>
    obtain ⟨between, hsecond, hfirst⟩ := Option.bind_eq_some_iff.1 hseam
    exact ihfirst hfirst (ihsecond hsecond h)
  | either first second ihfirst ihsecond =>
    obtain ⟨here, hfirst, hsecond⟩ := Option.bind_eq_some_iff.1 hseam
    obtain ⟨there, hthere, rfl⟩ := Option.map_eq_some_iff.1 hsecond
    exact (ihfirst hfirst h).orElse (ihsecond hthere h)
  | capture inner ih =>
    obtain ⟨within, hinner, rfl⟩ := Option.map_eq_some_iff.1 hseam
    exact (ih hinner h.closing).opening

/-- The header of a method behind the line feed with which it starts. -/
def methodLine : Pattern :=
  inOrder [blanks, capture name, blanks, char '(', many (· != ';'), char ')', blanks, char '\x7b']

theorem methodHeader_eq : methodHeader = seq (char '\n') methodLine := rfl

theorem seam?_methodLine : methodLine.seam? .loose = some .absorbing := by decide +kernel

end Pattern

end CodeSurvey
