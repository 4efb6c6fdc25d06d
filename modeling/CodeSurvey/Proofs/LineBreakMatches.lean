import CodeSurvey.Proofs.LineBreakPatterns
import CodeSurvey.Proofs.ListLemmas

/-!
# Matches and line breaks

The matches of a pattern in a text and in the same text with a carriage return before every line
feed. A match that starts with a line break starts with the line feed of it in both texts, so all
matches start at the same characters, and as no match keeps a line break they keep the same.

## Key results

- `Pattern.startsAlike_of_seam?`: which patterns start at the same characters
- `Pattern.findFrom_crlf`: the same matches are collected
- `Pattern.forall₂_findAll_crlf`: the matches of both texts, one by one
-/

namespace CodeSurvey

open Text (crlf breakWidth shift IsMoved)

/-- Matches start at the same characters of both texts. A match that starts with a line break starts
with the line feed of it. -/
structure StartsAlike (text : List Char) (search mirrored : Search) : Prop where
  away : ∀ front rest, text = front ++ rest → rest.head? ≠ some '\n' →
    mirrored.outcome (crlf front).length = (search.outcome front.length).map (Outcome.shift text)
  atBreak : ∀ front rest, text = front ++ '\n' :: rest →
    mirrored.outcome (crlf front).length = none ∧
      mirrored.outcome ((crlf front).length + 1) =
        (search.outcome front.length).map (Outcome.shift text)

section Starts

variable {text : List Char} {seam : Seam} {search mirrored : Search}

/-- The searches find the same at the same character. -/
theorem StartsAlike.outcome (h : StartsAlike text search mirrored) {front rest : List Char}
    (htext : text = front ++ rest) :
    mirrored.outcome ((crlf front).length + breakWidth rest) =
      (search.outcome front.length).map (Outcome.shift text) := by
  unfold breakWidth
  split
  · rename_i hhead
    cases rest with
    | nil => exact nomatch hhead
    | cons c rest =>
      obtain rfl := Option.some.inj hhead
      exact (h.atBreak front rest htext).2
  · rename_i hhead
    exact h.away front rest htext hhead

/-- What is met in one line starts with no line break. -/
theorem Mirrors.startsAlike (h : Mirrors text .inLine search mirrored) :
    StartsAlike text search mirrored := by
  refine ⟨fun front rest htext _ => h.outcome front rest htext, fun front rest htext => ?_⟩
  obtain ⟨hreturn, hfeed⟩ := h.seam front rest htext
  have hhere := h.outcome front _ htext
  exact ⟨hreturn, hfeed.trans (hreturn.symm.trans hhere)⟩

/-- What starts with a line feed is met there. -/
theorem Mirrors.startsAlike_break (h : Mirrors text seam search mirrored) :
    StartsAlike text (Pattern.before text.toArray (.char '\n') search)
      (Pattern.before (crlf text).toArray (.char '\n') mirrored) := by
  refine ⟨fun front rest htext hhead => ?_, fun front rest htext => ?_⟩
  · -- neither search finds anything away from line breaks
    have hin : Pattern.isIn (· == '\n') text.toArray front.length = false := by
      rw [htext, Pattern.isIn_append]
      cases rest with
      | nil => rfl
      | cons c rest => simpa using hhead
    have hin' : Pattern.isIn (· == '\n') (crlf text).toArray (crlf front).length = false := by
      rw [htext, Text.crlf_append, Pattern.isIn_append, Text.head?_crlf]
      cases rest with
      | nil => rfl
      | cons c rest =>
        have hc : c ≠ '\n' := by simpa using hhead
        simp [hc]
    show (if _ then _ else none) = (if _ then _ else none).map _
    rw [hin, hin']
    rfl
  · have hnext := h.outcome_next htext
    have hin : Pattern.isIn (· == '\n') text.toArray front.length = true := by
      rw [htext, Pattern.isIn_append]
      rfl
    have hreturn := Mirrors.isIn_return (· == '\n') front rest
    have hfeed := Mirrors.isIn_feed (· == '\n') front rest
    rw [← htext] at hreturn hfeed
    show (if _ then _ else none) = none ∧ (if _ then _ else none) = (if _ then _ else none).map _
    rw [hin, hreturn, hfeed]
    exact ⟨rfl, hnext⟩

end Starts

namespace Pattern

/-- The matches of a pattern start at the same characters of both texts. -/
def StartsAlike (p : Pattern) : Prop :=
  ∀ text : List Char,
    CodeSurvey.StartsAlike text (p.before text.toArray .done) (p.before (crlf text).toArray .done)

theorem startsAlike_of_seam? {p : Pattern} (h : p.seam? .loose = some .inLine) : p.StartsAlike :=
  fun text => (mirrors_before h (.done text)).startsAlike

theorem startsAlike_methodHeader : methodHeader.StartsAlike := by
  intro text
  rw [methodHeader_eq]
  exact (mirrors_before seam?_methodLine (.done text)).startsAlike_break

/-! ## Where matches stand -/

/-- A match that was found, in the text with carriage returns. -/
def shiftEntry (text : List Char) (entry : Nat × Outcome) : Nat × Outcome :=
  (shift text entry.1 + breakWidth (text.drop entry.1), entry.2.shift text)

theorem shiftEntry_append (front rest : List Char) (outcome : Outcome) :
    shiftEntry (front ++ rest) (front.length, outcome) =
      ((crlf front).length + breakWidth rest, outcome.shift (front ++ rest)) := by
  rw [shiftEntry, Text.shift_append, List.drop_left]

section Collected

variable {text : List Char} {search mirrored : Search}
  (h : CodeSurvey.StartsAlike text search mirrored)

include h

/-- Before the carriage return of a line break no match starts. -/
theorem findFrom_return {front rest : List Char} {c : Char} (htext : text = front ++ c :: rest)
    (resume : Nat) (found : List (Nat × Outcome)) :
    findFrom mirrored ((crlf (c :: rest)).length + 1) (crlf front).length (shift text resume)
        found =
      findFrom mirrored ((crlf rest).length + 1 + 1) ((crlf front).length + breakWidth (c :: rest))
        (shift text resume) found := by
  by_cases hc : c = '\n'
  · subst hc
    apply findFrom_passed
    by_cases hlt : front.length < resume
    · -- the last match goes on beyond the line break
      have hshift : (crlf front).length + breakWidth ('\n' :: rest) < shift text resume := by
        rw [htext]
        exact Text.lt_shift hlt
      exact .inl (Nat.lt_of_le_of_lt (Nat.le_add_right _ _) hshift)
    · exact .inr (h.atBreak front rest htext).1
  · have hwidth : breakWidth (c :: rest) = 0 := by simp [breakWidth, hc]
    rw [Text.crlf_cons_of_ne hc, hwidth]
    rfl

variable (hstop : ∀ place outcome, place ≤ text.length → search.outcome place = some outcome →
  outcome.stop ≤ text.length)

include hstop

/-- At the same character the same match is collected from both texts, or none. -/
theorem exists_findFrom_step {front rest : List Char} (htext : text = front ++ rest) {resume : Nat}
    (hresume : resume ≤ text.length) (found : List (Nat × Outcome)) :
    ∃ later ≤ text.length, ∃ matches', ∀ count count',
      findFrom search (count + 1) front.length resume found =
          findFrom search count (front.length + 1) later matches' ∧
        findFrom mirrored (count' + 1) ((crlf front).length + breakWidth rest)
            (shift text resume) (found.map (shiftEntry text)) =
          findFrom mirrored count' ((crlf front).length + breakWidth rest + 1)
            (shift text later) (matches'.map (shiftEntry text)) := by
  have hhere := h.outcome htext
  by_cases hlt : front.length < resume
  · refine ⟨resume, hresume, found, fun count count' => ⟨findFrom_passed (.inl hlt) count found,
      findFrom_passed (.inl ?_) count' _⟩⟩
    cases rest with
    | nil =>
      rw [htext, List.append_nil] at hresume
      omega
    | cons c rest =>
      rw [htext]
      exact Text.lt_shift hlt
  · cases houtcome : search.outcome front.length with
    | none =>
      rw [houtcome] at hhere
      exact ⟨resume, hresume, found, fun count count' =>
        ⟨findFrom_passed (.inr houtcome) count found, findFrom_passed (.inr hhere) count' _⟩⟩
    | some outcome =>
      rw [houtcome] at hhere
      have hplace : front.length ≤ text.length := by simp [htext]
      have hentry := shiftEntry_append front rest outcome
      have hshift := @Text.shift_le front rest resume (Nat.not_lt.1 hlt)
      rw [← htext] at hentry hshift
      refine ⟨outcome.stop, hstop _ _ hplace houtcome, (front.length, outcome) :: found,
        fun count count' => ⟨findFrom_met (Nat.not_lt.1 hlt) houtcome count found, ?_⟩⟩
      rw [findFrom_met (Nat.le_trans hshift (Nat.le_add_right _ _)) hhere, List.map_cons, hentry]
      rfl

/-- The same matches are collected from both texts. -/
theorem findFrom_crlf (front rest : List Char) (htext : text = front ++ rest) {resume : Nat}
    (hresume : resume ≤ text.length) (found : List (Nat × Outcome)) :
    findFrom mirrored ((crlf rest).length + 1) (crlf front).length (shift text resume)
        (found.map (shiftEntry text)) =
      (findFrom search (rest.length + 1) front.length resume found).map (shiftEntry text) := by
  -- one step at each character, and one at the end of the text
  induction rest generalizing front resume found with
  | nil =>
    obtain ⟨later, -, matches', hstep⟩ := exists_findFrom_step h hstop htext hresume found
    obtain ⟨hsearch, hmirrored⟩ := hstep 0 0
    show findFrom mirrored (0 + 1) ((crlf front).length + breakWidth []) _ _ =
      (findFrom search (0 + 1) _ _ _).map _
    rw [hsearch, hmirrored, findFrom, findFrom, List.map_reverse]
  | cons c rest ih =>
    obtain ⟨later, hlater, matches', hstep⟩ := exists_findFrom_step h hstop htext hresume found
    obtain ⟨hsearch, hmirrored⟩ := hstep (rest.length + 1) ((crlf rest).length + 1)
    have hrest := ih (front ++ [c]) (by simp [htext]) hlater matches'
    rw [Text.length_crlf_concat front c rest, List.length_append, List.length_singleton] at hrest
    rw [findFrom_return h htext, hmirrored, List.length_cons, hsearch]
    exact hrest

end Collected

/-! ## What matches keep -/

/-- Whether no text that a pattern keeps holds a character. -/
def keepsNo (c : Char) : Pattern → Bool
  | word _ | one _ | many _ => true
  | seq first second | either first second => first.keepsNo c && second.keepsNo c
  | capture inner => inner.avoids c

theorem not_mem_kept {p : Pattern} {c : Char} (hp : p.keepsNo c = true) {stretch : List Char}
    {kept : Option (Nat × Nat)} (h : p.Describes stretch kept) :
    ∀ span ∈ kept, c ∉ (stretch.take span.2).drop span.1 := by
  induction p generalizing stretch kept with
  | word characters => obtain ⟨-, rfl⟩ := h; simp
  | one set => obtain ⟨-, rfl⟩ := h; simp
  | many set => obtain ⟨-, rfl⟩ := h; simp
  | seq first second ihfirst ihsecond =>
    obtain ⟨front, back, here, there, rfl, hfirst, hsecond, rfl⟩ := h
    rw [keepsNo, Bool.and_eq_true] at hp
    intro span hspan
    -- the text that the first part keeps goes before that of the second one
    cases here with
    | some span' =>
      obtain rfl := Option.some.inj hspan
      rw [List.take_append_of_le_length (le_length_of_describes hfirst _ rfl)]
      exact ihfirst hp.1 hfirst _ rfl
    | none =>
      cases there with
      | none => cases hspan
      | some span' =>
        obtain rfl := Option.some.inj hspan
        rw [List.take_length_add_append, List.drop_length_add_append]
        exact ihsecond hp.2 hsecond _ rfl
  | either first second ihfirst ihsecond =>
    rw [keepsNo, Bool.and_eq_true] at hp
    exact h.elim (ihfirst hp.1) (ihsecond hp.2)
  | capture inner ih =>
    obtain ⟨within, hinner, rfl⟩ := h
    intro span hspan hmem
    obtain rfl := Option.some.inj hspan
    exact not_mem_of_avoids hp hinner (List.mem_of_mem_take (List.mem_of_mem_drop hmem))

/-- No match keeps a line break. -/
theorem not_mem_group {p : Pattern} {c : Char} (hp : p.keepsNo c = true) {text : List Char}
    {found : Match} (h : found ∈ p.findAll text) : ∀ kept ∈ found.group, c ∉ kept.toList := by
  obtain ⟨front, stretch, back, span?, -, hdescribes, -, -, hgroup⟩ :=
    exists_describes_of_mem_findAll h
  intro kept hkept
  rw [hgroup] at hkept
  obtain ⟨span, hspan, rfl⟩ := Option.map_eq_some_iff.1 hkept
  rw [String.toList_ofList]
  exact not_mem_kept hp hdescribes span hspan

/-- A stretch between two places, in the text with carriage returns. -/
theorem extract_crlf (text : List Char) (first last : Nat) :
    ((crlf text).toArray.extract (shift text first) (shift text last)).toList =
      crlf (text.toArray.extract first last).toList := by
  have hdrop : (crlf text).drop (shift text first) = crlf (text.drop first) := by
    have htext := congrArg crlf (List.take_append_drop first text)
    rw [Text.crlf_append] at htext
    rw [← htext, shift, List.drop_left]
  have hlength : shift text last - shift text first =
      (crlf ((text.drop first).take (last - first))).length := by
    rcases Nat.le_total first last with hle | hle
    · obtain ⟨count, rfl⟩ := Nat.exists_eq_add_of_le hle
      rw [shift, shift, List.take_add, Text.crlf_append, List.length_append,
        Nat.add_sub_cancel_left, Nat.add_sub_cancel_left]
    · -- there is nothing between the places in either text
      obtain ⟨count, rfl⟩ := Nat.exists_eq_add_of_le hle
      have hnone : last - (last + count) = 0 := by omega
      rw [shift, shift, List.take_add, Text.crlf_append, List.length_append, hnone, List.take_zero]
      exact Nat.sub_eq_zero_of_le (Nat.le_add_right _ _)
  have hrest := congrArg crlf (List.take_append_drop (last - first) (text.drop first))
  rw [Text.crlf_append] at hrest
  rw [List.extract_toArray, List.extract_eq_take_drop, List.extract_toArray,
    List.extract_eq_take_drop, hdrop, hlength, ← hrest, List.take_left]

theorem keptText_crlf (text : List Char) (outcome : Outcome) :
    keptText (crlf text).toArray (outcome.shift text) =
      (keptText text.toArray outcome).map fun kept => String.ofList (crlf kept.toList) := by
  obtain ⟨stop, keptFrom, keptTo⟩ := outcome
  cases keptFrom with
  | none => rfl
  | some first =>
    cases keptTo with
    | none => rfl
    | some last =>
      show some (String.ofList _) = some (String.ofList (crlf (String.ofList _).toList))
      rw [String.toList_ofList, ← extract_crlf]

end Pattern

/-- A match of a text, and the match of the text with carriage returns that starts at the same
character and keeps the same. -/
structure Match.Moves (text : List Char) (found moved : Match) : Prop where
  start : IsMoved text found.start moved.start
  group : moved.group = found.group

namespace Pattern

/-- The offset of a character is that of the same character among carriage returns. -/
theorem isMoved_byteOffsets {text : List Char} {place : Nat} (hplace : place ≤ text.length) :
    IsMoved text ((byteOffsets text.toArray)[place]?.getD 0)
      ((byteOffsets (crlf text).toArray)[shift text place +
        breakWidth (text.drop place)]?.getD 0) := by
  -- a carriage return at the place is one character and one byte
  obtain ⟨lead, hrest, hcount, hbytes⟩ := Text.exists_crlf_eq_append (text.drop place)
  have htext := congrArg crlf (List.take_append_drop place text)
  rw [Text.crlf_append, hrest, ← List.append_assoc] at htext
  have hlength : shift text place + breakWidth (text.drop place) =
      (crlf (text.take place) ++ lead).length := by
    rw [List.length_append, hcount]
    rfl
  have hle : (crlf (text.take place) ++ lead).length ≤ (crlf text).length := by
    rw [← htext]
    simp
  refine ⟨text.take place, text.drop place, (List.take_append_drop place text).symm, ?_, ?_⟩
  · rw [getElem?_byteOffsets hplace, Option.getD_some]
  · rw [hlength, getElem?_byteOffsets hle, Option.getD_some, ← htext, List.take_left,
      Text.byteLength_append, hbytes]

/-- The matches of both texts correspond, one by one. -/
theorem forall₂_findAll_crlf {p : Pattern} (hp : p.StartsAlike) (hkeeps : p.keepsNo '\n' = true)
    (text : List Char) :
    List.Forall₂ (Match.Moves text) (p.findAll text) (p.findAll (crlf text)) := by
  have hfound := findFrom_crlf (hp text) (fun _ _ => stop_le_of_outcome) [] text rfl
    (Nat.zero_le _) []
  have hzero : shift text 0 = 0 := by rw [shift, List.take_zero]; rfl
  rw [hzero, List.map_nil, Text.crlf_nil] at hfound
  have hgroups := fun found => @not_mem_group p '\n' hkeeps text found
  unfold findAll at hgroups ⊢
  simp only [List.size_toArray] at hgroups ⊢
  rw [List.length_nil] at hfound
  rw [hfound, List.map_map]
  rw [List.forall₂_map_left_iff, List.forall₂_map_right_iff, List.forall₂_same]
  rintro ⟨place, outcome⟩ hentry
  have hplace : place ≤ text.length := by
    rcases outcome_of_mem_findFrom hentry with hnil | ⟨-, -, hplace⟩
    · exact absurd hnil List.not_mem_nil
    · omega
  refine ⟨isMoved_byteOffsets hplace, ?_⟩
  -- what is kept holds no line break, so it stays as it is
  have hgroup := hgroups _ (List.mem_map_of_mem hentry)
  show keptText _ (outcome.shift text) = keptText _ outcome
  rw [keptText_crlf]
  cases hkept : keptText text.toArray outcome with
  | none => rfl
  | some kept =>
    rw [Option.map_some, Text.crlf_of_not_mem (hgroup kept hkept), String.ofList_toList]

/-- A pattern keeps the same in both texts. -/
theorem groups_crlf {p : Pattern} (hp : p.StartsAlike) (hkeeps : p.keepsNo '\n' = true)
    (text : List Char) : p.groups (crlf text) = p.groups text := by
  apply List.filterMap_eq_of_forall₂ (forall₂_findAll_crlf hp hkeeps text)
  intro found moved hmoves
  exact hmoves.group

end Pattern

end CodeSurvey
