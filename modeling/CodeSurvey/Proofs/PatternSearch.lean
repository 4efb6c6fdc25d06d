import Mathlib.Data.List.Pairwise
import CodeSurvey.Proofs.PatternLanguage
import CodeSurvey.Proofs.TextBytes

/-!
# What searches find

A pattern is found wherever it describes a stretch of the text, unless an earlier match runs over
the place. Matches do not overlap, so it is one match that starts there or runs over it. A pattern
that ends with a run goes on until a character that the run cannot take.

## Key results

- `isSome_outcome_of_describes`: a search finds something where the pattern describes a stretch
- `isIn_stop_of_lastRun`: a run at the end takes all that it can
- `exists_mem_findAll_of_describes`: a match starts at such a place or runs over it
- `exists_mem_findAll_reaching`: the text in front of such a place, cut where the match starts
- `eq_of_overlap`: there is no other one
-/

namespace CodeSurvey.Pattern

open Text (byteLength)

/-! ## Searches -/

theorem goesOnWith_append (front characters back : List Char) :
    goesOnWith (front ++ (characters ++ back)).toArray characters front.length = true := by
  induction characters generalizing front with
  | nil => rfl
  | cons c characters ih =>
    have htext : front ++ (c :: characters ++ back) = (front ++ [c]) ++ (characters ++ back) := by
      simp
    have hlength : front.length + 1 = (front ++ [c]).length := by simp
    rw [goesOnWith, getElem?_toArray_append, List.cons_append, List.head?_cons]
    simp only [if_pos]
    rw [← List.cons_append, htext, hlength, ih]

/-- A run can take characters of its set if the search goes on behind them. -/
theorem isSome_outcome_many {set : Char → Bool} {front stretch back : List Char} {next : Search}
    (hall : ∀ c ∈ stretch, set c = true)
    (h : (next.outcome (front.length + stretch.length)).isSome) :
    ((before (front ++ (stretch ++ back)).toArray (many set) next).outcome
      front.length).isSome := by
  induction stretch generalizing front with
  | nil =>
    rw [outcome_before_many (by simp), Option.isSome_or, Bool.or_eq_true]
    exact .inr h
  | cons c stretch ih =>
    rw [List.forall_mem_cons] at hall
    have htext : front ++ (c :: stretch ++ back) = (front ++ [c]) ++ (stretch ++ back) := by simp
    have hlength : front.length + 1 = (front ++ [c]).length := by simp
    have hlater := @ih (front ++ [c]) hall.2 (by
      rwa [← hlength, Nat.add_assoc, Nat.add_comm 1 stretch.length])
    have hin : isIn set (front ++ (c :: stretch ++ back)).toArray front.length = true := by
      rw [isIn_append]
      exact hall.1
    -- taking the next character as well already leads to an end
    rw [outcome_before_many (by simp), hin, if_pos rfl, Option.isSome_or, Bool.or_eq_true, hlength,
      htext]
    exact .inl hlater

/-- A search finds something where the pattern describes a stretch behind which it goes on. -/
theorem isSome_outcome_of_describes {p : Pattern} {front stretch back : List Char}
    {kept : Option (Nat × Nat)} {next : Search} (hp : p.Describes stretch kept)
    (h : (next.outcome (front.length + stretch.length)).isSome) :
    ((before (front ++ (stretch ++ back)).toArray p next).outcome front.length).isSome := by
  induction p generalizing front stretch back kept next with
  | word characters =>
    obtain ⟨rfl, -⟩ := hp
    simp only [before]
    rwa [goesOnWith_append, if_pos rfl]
  | one set =>
    obtain ⟨⟨c, rfl, hc⟩, -⟩ := hp
    have hin : isIn set (front ++ ([c] ++ back)).toArray front.length = true := by
      rw [isIn_append]
      exact hc
    simp only [before]
    rwa [hin, if_pos rfl]
  | many set => exact isSome_outcome_many hp.1 h
  | seq first second ihfirst ihsecond =>
    obtain ⟨here, there, _, _, rfl, hfirst, hsecond, -⟩ := hp
    -- the second part is found behind the first one
    have hlater := @ihsecond (front ++ here) there back _ next hsecond (by
      rwa [List.length_append, Nat.add_assoc, ← List.length_append])
    rw [List.append_assoc, List.length_append] at hlater
    rw [List.append_assoc here]
    exact ihfirst hfirst hlater
  | either first second ihfirst ihsecond =>
    simp only [before, Search.orElse, Option.isSome_or, Bool.or_eq_true]
    exact hp.imp (fun hfirst => ihfirst hfirst h) fun hsecond => ihsecond hsecond h
  | capture inner ih =>
    obtain ⟨within, hinner, -⟩ := hp
    have hclosing : (next.closing.outcome (front.length + stretch.length)).isSome := by
      rw [Search.closing, Option.isSome_map]
      exact h
    simp only [before, Search.opening, Option.isSome_map]
    exact ih hinner hclosing

/-! ## Runs at the end -/

/-- The set of the run with which a pattern ends. -/
def lastRun : Pattern → Option (Char → Bool)
  | word _ | one _ | either _ _ => none
  | many set => some set
  | seq _ second => second.lastRun
  | capture inner => inner.lastRun

/-- A search that ends at every place to which it comes. -/
def EndsThere (search : Search) : Prop :=
  ∀ place, ∃ outcome, search.outcome place = some outcome ∧ outcome.stop = place

/-- A run in front of a search that ends everywhere takes all that it can. -/
theorem isIn_stop_of_many {set : Char → Bool} {front rest : List Char} {next : Search}
    {outcome : Outcome} (hnext : EndsThere next)
    (h : (before (front ++ rest).toArray (many set) next).outcome front.length = some outcome) :
    isIn set (front ++ rest).toArray outcome.stop = false := by
  induction rest generalizing front with
  | nil =>
    obtain ⟨here, hhere, hstop⟩ := hnext front.length
    have hin : isIn set (front ++ []).toArray front.length = false := isIn_append front []
    rw [outcome_before_many (by simp), hin, if_neg (by decide), Option.none_or, hhere,
      Option.some.injEq] at h
    rw [← h, hstop, hin]
  | cons c rest ih =>
    have htext : front ++ c :: rest = (front ++ [c]) ++ rest := by simp
    have hlength : front.length + 1 = (front ++ [c]).length := by simp
    by_cases hc : set c = true
    · have hin : isIn set (front ++ c :: rest).toArray front.length = true := by
        rw [isIn_append]
        exact hc
      -- the run goes on, since it finds something wherever it comes
      obtain ⟨here, hhere, -⟩ := hnext (front ++ [c]).length
      obtain ⟨later, hlater⟩ := Option.isSome_iff_exists.1
        (@isSome_outcome_many set (front ++ [c]) [] rest next (by simp)
          (Option.isSome_of_eq_some hhere))
      rw [List.nil_append, ← htext, ← hlength] at hlater
      rw [outcome_before_many (by simp), hin, if_pos rfl, hlater, Option.some_or,
        Option.some.injEq] at h
      rw [htext, ← h]
      rw [htext, hlength, h] at hlater
      exact h ▸ ih hlater
    · have hin : isIn set (front ++ c :: rest).toArray front.length = false := by
        rw [isIn_append]
        simpa using hc
      obtain ⟨here, hhere, hstop⟩ := hnext front.length
      rw [outcome_before_many (by simp), hin, if_neg (by decide), Option.none_or, hhere,
        Option.some.injEq] at h
      rw [← h, hstop, hin]

theorem isIn_stop_of_lastRun {p : Pattern} {set : Char → Bool} (hp : p.lastRun = some set)
    {front rest : List Char} {next : Search} {outcome : Outcome} (hnext : EndsThere next)
    (h : (before (front ++ rest).toArray p next).outcome front.length = some outcome) :
    isIn set (front ++ rest).toArray outcome.stop = false := by
  induction p generalizing front rest next outcome with
  | word characters => cases hp
  | one set => cases hp
  | many set' =>
    obtain rfl := Option.some.inj hp
    exact isIn_stop_of_many hnext h
  | seq first second ihfirst ihsecond =>
    -- the second part ends the match, behind what the first one takes
    have hfirst : (before (front ++ rest).toArray first
      (before (front ++ rest).toArray second next)).outcome front.length = some outcome := h
    obtain ⟨stretch, back, kept, later, rfl, -, hlater, rfl⟩ := exists_describes_of_outcome hfirst
    rw [← List.append_assoc, ← List.length_append] at hlater
    have hin := ihsecond hp hnext hlater
    rwa [List.append_assoc] at hin
  | either first second ihfirst ihsecond => cases hp
  | capture inner ih =>
    simp only [before, Search.opening, Option.map_eq_some_iff] at h
    obtain ⟨opened, hopened, rfl⟩ := h
    have hclosing : EndsThere next.closing := by
      intro place
      obtain ⟨here, hhere, hstop⟩ := hnext place
      exact ⟨{ here with keptTo := some place }, by simp [Search.closing, hhere], hstop⟩
    show isIn set _ opened.stop = false
    exact ih hp hclosing hopened

/-- Behind a match of a pattern that ends with a run stands no character that the run could take. -/
theorem exists_describes_of_mem_findAll_of_lastRun {p : Pattern} {set : Char → Bool}
    (hp : p.lastRun = some set) {text : List Char} {found : Match} (h : found ∈ p.findAll text) :
    ∃ front stretch back kept, text = front ++ (stretch ++ back) ∧ p.Describes stretch kept ∧
      found.start = byteLength front ∧ found.stop = byteLength (front ++ stretch) ∧
      found.group = kept.map (fun span => String.ofList ((stretch.take span.2).drop span.1)) ∧
      back.head?.any set = false := by
  obtain ⟨front, stretch, back, kept, rfl, hdescribes, hstart, hstop, hgroup, houtcome⟩ :=
    exists_outcome_of_mem_findAll h
  refine ⟨front, stretch, back, kept, rfl, hdescribes, hstart, hstop, hgroup, ?_⟩
  have hin := isIn_stop_of_lastRun hp (fun place => ⟨_, rfl, rfl⟩) houtcome
  change isIn set _ (front.length + stretch.length) = false at hin
  rwa [← List.append_assoc, ← List.length_append, isIn_append] at hin

/-! ## Matches -/

theorem mem_findFrom_of_mem {search : Search} {count place resume : Nat}
    {found : List (Nat × Outcome)} {entry : Nat × Outcome} (h : entry ∈ found) :
    entry ∈ findFrom search count place resume found := by
  induction count generalizing place resume found with
  | zero => exact List.mem_reverse.2 h
  | succ count ih =>
    rw [findFrom]
    split
    · exact ih h
    · split
      · exact ih h
      · exact ih (List.mem_cons_of_mem _ h)

/-- Where a search finds something, it is found, or an earlier match runs over the place. -/
theorem exists_mem_findFrom {search : Search} {count first resume place : Nat}
    {found : List (Nat × Outcome)} (h : (search.outcome place).isSome) (hfirst : first ≤ place)
    (hlast : place < first + count) :
    place < resume ∨ ∃ entry ∈ findFrom search count first resume found,
      entry.1 = place ∨ entry.1 < place ∧ place < entry.2.stop := by
  induction count generalizing first resume found with
  | zero => omega
  | succ count ih =>
    rw [findFrom]
    split
    · by_cases heq : place = first
      · exact .inl (by omega)
      · exact ih (by omega) (by omega)
    · split
      · rename_i hnone
        have hne : place ≠ first := by
          rintro rfl
          rw [hnone] at h
          cases h
        exact ih (by omega) (by omega)
      · rename_i outcome _
        by_cases heq : place = first
        · subst heq
          exact .inr ⟨(place, outcome), mem_findFrom_of_mem List.mem_cons_self, .inl rfl⟩
        · -- the place lies within the match that starts here, or is met later
          rcases @ih (first + 1) outcome.stop ((first, outcome) :: found) (by omega) (by omega) with
            hwithin | hlater
          · exact .inr ⟨(first, outcome), mem_findFrom_of_mem List.mem_cons_self,
              .inr ⟨show first < place by omega, hwithin⟩⟩
          · exact .inr hlater

theorem byteLength_take_lt {text : List Char} {first last : Nat} (h : first < last)
    (hlast : last ≤ text.length) : byteLength (text.take first) < byteLength (text.take last) := by
  refine Nat.lt_of_le_of_ne (byteLength_take_mono text (Nat.le_of_lt h)) fun heq => ?_
  have hprefix : text.take last <+: text.take first :=
    Text.prefix_of_byteLength_le (List.take_prefix _ _) (List.take_prefix _ _)
      (Nat.le_of_eq heq.symm)
  have hlength := hprefix.length_le
  rw [List.length_take, List.length_take] at hlength
  omega

/-- Where a pattern describes a stretch of a text, a match starts or an earlier one runs over the
place. -/
theorem exists_mem_findAll_of_describes {p : Pattern} {text front stretch back : List Char}
    {kept : Option (Nat × Nat)} (htext : text = front ++ (stretch ++ back))
    (h : p.Describes stretch kept) :
    ∃ found ∈ p.findAll text, found.start = byteLength front ∨
      found.start < byteLength front ∧ byteLength front < found.stop := by
  have hsome : ((p.before text.toArray .done).outcome front.length).isSome := by
    rw [htext]
    exact isSome_outcome_of_describes h rfl
  have hplace : front.length ≤ text.length := by simp [htext]
  have hoffset : (byteOffsets text.toArray)[front.length]?.getD 0 = byteLength front := by
    rw [getElem?_byteOffsets hplace, htext, List.take_left, Option.getD_some]
  rcases @exists_mem_findFrom _ (text.toArray.size + 1) 0 0 _ [] hsome (Nat.zero_le _)
    (by rw [List.size_toArray]; omega) with hlt | ⟨entry, hentry, hcovers⟩
  · omega
  · refine ⟨_, List.mem_map_of_mem hentry, ?_⟩
    show (byteOffsets _)[entry.1]?.getD 0 = _ ∨ (byteOffsets _)[entry.1]?.getD 0 < _ ∧
      _ < (byteOffsets _)[entry.2.stop]?.getD 0
    rcases hcovers with hhere | ⟨hbefore, hbehind⟩
    · exact .inl (by rw [hhere, hoffset])
    · -- places are counted in bytes in the same order
      have houtcome := (outcome_of_mem_findFrom hentry).resolve_left List.not_mem_nil
      have hstop := stop_le_of_outcome (by omega) houtcome.1
      have hstart := byteLength_take_lt hbefore hplace
      have hend := byteLength_take_lt hbehind hstop
      rw [← hoffset, getElem?_byteOffsets (by omega), getElem?_byteOffsets hplace,
        getElem?_byteOffsets hstop]
      exact .inr ⟨hstart, hend⟩

/-- A match of a pattern that describes nothing empty is not empty. -/
theorem start_lt_stop_of_ne_nil {p : Pattern}
    (hp : ∀ {stretch kept}, p.Describes stretch kept → stretch ≠ []) {text : List Char}
    {found : Match} (h : found ∈ p.findAll text) : found.start < found.stop := by
  obtain ⟨front, stretch, back, kept, -, hdescribes, hstart, hstop, -⟩ :=
    exists_describes_of_mem_findAll h
  have hpos : byteLength stretch ≠ 0 := fun h =>
    hp hdescribes (Text.eq_nil_of_byteLength_eq_zero h)
  rw [hstart, hstop, Text.byteLength_append]
  omega

/-- A match reaches over the start of a stretch that the pattern describes. It starts there or in
front of it. -/
theorem exists_mem_findAll_reaching {p : Pattern}
    (hp : ∀ {stretch kept}, p.Describes stretch kept → stretch ≠ [])
    {text front stretch back : List Char} {kept : Option (Nat × Nat)}
    (htext : text = front ++ (stretch ++ back)) (h : p.Describes stretch kept) :
    ∃ found ∈ p.findAll text, ∃ before between, front = before ++ between ∧
      found.start = byteLength before ∧ byteLength front < found.stop := by
  obtain ⟨found, hfound, hcovers⟩ := exists_mem_findAll_of_describes htext h
  have hlt := start_lt_stop_of_ne_nil hp hfound
  obtain ⟨before, stretch', beyond, kept', htext', -, hstart, -⟩ :=
    exists_describes_of_mem_findAll hfound
  obtain ⟨between, hfront, -⟩ := Text.exists_of_append_eq_append (htext'.symm.trans htext)
    (show byteLength before ≤ byteLength front by omega)
  exact ⟨found, hfound, before, between, hfront, hstart, by omega⟩

/-- Two matches of a text that both run over a byte are one. -/
theorem eq_of_overlap {p : Pattern} {text : List Char} {found other : Match}
    (hfound : found ∈ p.findAll text) (hother : other ∈ p.findAll text) {offset : Nat}
    (hstart : found.start ≤ offset) (hstop : offset < found.stop)
    (hstart' : other.start ≤ offset) (hstop' : offset < other.stop) : found = other := by
  by_contra hne
  -- the one that starts later would start before the end of the other one
  have hsymm : Std.Symm fun a b : Match => a.stop ≤ b.start ∨ b.stop ≤ a.start :=
    ⟨fun _ _ => Or.symm⟩
  have hpairwise : (p.findAll text).Pairwise fun a b => a.stop ≤ b.start ∨ b.stop ≤ a.start :=
    (pairwise_findAll p text).imp Or.inl
  have hapart := hpairwise.forall hfound hother hne
  omega

end CodeSurvey.Pattern
