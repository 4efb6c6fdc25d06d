import CodeSurvey.Pattern.Basic
import CodeSurvey.Text.Cursor
import Mathlib.Data.List.Induction

/-!
# What patterns match

A pattern describes stretches of text. Whatever is found for a pattern in a text is a stretch that
it describes, at the bytes that the match names, and what the match keeps is what the pattern says.

## Key results

- `exists_describes_of_outcome`: the outcomes of a search come from stretches that are described
- `exists_describes_of_mem_findAll`: so do the matches of a text
- `pairwise_findAll`: no match starts before the end of an earlier one
-/

namespace CodeSurvey

open Text (byteLength)

/-- What an outcome is in front of a stretch at a place, in which some text is kept. -/
def Outcome.behind (outcome : Outcome) (place : Nat) (kept : Option (Nat × Nat)) : Outcome :=
  { stop := outcome.stop
    keptFrom := (kept.map fun span => place + span.1).or outcome.keptFrom
    keptTo := (kept.map fun span => place + span.2).or outcome.keptTo }

namespace Pattern

/-- Whether a pattern describes a stretch of text. `kept` tells between which of its characters the
text to keep lies. -/
def Describes : Pattern → (stretch : List Char) → (kept : Option (Nat × Nat)) → Prop
  | word characters, stretch, kept => stretch = characters ∧ kept = none
  | one set, stretch, kept => (∃ c, stretch = [c] ∧ set c = true) ∧ kept = none
  | many set, stretch, kept => (∀ c ∈ stretch, set c = true) ∧ kept = none
  | seq first second, stretch, kept => ∃ front back here there,
      stretch = front ++ back ∧ Describes first front here ∧ Describes second back there ∧
      kept = here.or (there.map fun span => (front.length + span.1, front.length + span.2))
  | either first second, stretch, kept =>
      Describes first stretch kept ∨ Describes second stretch kept
  | capture inner, stretch, kept => ∃ within, Describes inner stretch within ∧
      kept = some (0, (within.map Prod.snd).getD stretch.length)

/-- Whether all that a pattern describes comes with a text to keep. -/
def keeps : Pattern → Bool
  | word _ | one _ | many _ => false
  | seq first second => first.keeps || second.keeps
  | either first second => first.keeps && second.keeps
  | capture _ => true

/-- Whether nothing that a pattern describes holds a character. -/
def avoids (c : Char) : Pattern → Bool
  | word characters => !characters.contains c
  | one set | many set => !set c
  | seq first second | either first second => first.avoids c && second.avoids c
  | capture inner => inner.avoids c

theorem isSome_of_keeps {p : Pattern} (hp : p.keeps = true) {stretch : List Char}
    {kept : Option (Nat × Nat)} (h : p.Describes stretch kept) : kept.isSome = true := by
  induction p generalizing stretch kept with
  | word characters => cases hp
  | one set => cases hp
  | many set => cases hp
  | seq first second ihfirst ihsecond =>
    obtain ⟨front, back, here, there, rfl, hfirst, hsecond, rfl⟩ := h
    rw [keeps, Bool.or_eq_true] at hp
    rw [Option.isSome_or, Option.isSome_map, Bool.or_eq_true]
    exact hp.imp (fun hp => ihfirst hp hfirst) fun hp => ihsecond hp hsecond
  | either first second ihfirst ihsecond =>
    rw [keeps, Bool.and_eq_true] at hp
    exact h.elim (ihfirst hp.1) (ihsecond hp.2)
  | capture inner ih =>
    obtain ⟨within, -, rfl⟩ := h
    rfl

theorem not_mem_of_avoids {p : Pattern} {c : Char} (hp : p.avoids c = true) {stretch : List Char}
    {kept : Option (Nat × Nat)} (h : p.Describes stretch kept) : c ∉ stretch := by
  induction p generalizing stretch kept with
  | word characters =>
    obtain ⟨rfl, -⟩ := h
    simpa [avoids] using hp
  | one set =>
    obtain ⟨⟨d, rfl, hd⟩, -⟩ := h
    rw [avoids, Bool.not_eq_true'] at hp
    rw [List.mem_singleton]
    rintro rfl
    rw [hd] at hp
    cases hp
  | many set =>
    obtain ⟨hall, -⟩ := h
    rw [avoids, Bool.not_eq_true'] at hp
    intro hmem
    rw [hall c hmem] at hp
    cases hp
  | seq first second ihfirst ihsecond =>
    obtain ⟨front, back, here, there, rfl, hfirst, hsecond, -⟩ := h
    rw [avoids, Bool.and_eq_true] at hp
    rw [List.mem_append, not_or]
    exact ⟨ihfirst hp.1 hfirst, ihsecond hp.2 hsecond⟩
  | either first second ihfirst ihsecond =>
    rw [avoids, Bool.and_eq_true] at hp
    exact h.elim (ihfirst hp.1) (ihsecond hp.2)
  | capture inner ih =>
    obtain ⟨within, hinner, -⟩ := h
    exact ih hp hinner

/-- A list of patterns that ends with one: what the last one describes stands at the end. -/
theorem exists_of_describes_inOrder_concat {front : List Pattern} {last : Pattern}
    {stretch : List Char} {kept : Option (Nat × Nat)}
    (h : (inOrder (front ++ [last])).Describes stretch kept) :
    ∃ before after keptBefore keptAfter, stretch = before ++ after ∧
      (inOrder front).Describes before keptBefore ∧ last.Describes after keptAfter := by
  induction front generalizing stretch kept with
  | nil => exact ⟨[], stretch, none, kept, rfl, ⟨rfl, rfl⟩, h⟩
  | cons p front ih =>
    -- a list of one pattern is that pattern, so the last step of the list is a case of its own
    cases front with
    | nil =>
      obtain ⟨before, after, here, there, rfl, hbefore, hafter, -⟩ := h
      exact ⟨before, after, here, there, rfl, hbefore, hafter⟩
    | cons q front =>
      obtain ⟨first, rest, here, there, rfl, hfirst, hrest, -⟩ := h
      obtain ⟨before, after, keptBefore, keptAfter, rfl, hbefore, hafter⟩ := ih hrest
      exact ⟨first ++ before, after, _, keptAfter, (List.append_assoc _ _ _).symm,
        ⟨first, before, here, keptBefore, rfl, hfirst, hbefore, rfl⟩, hafter⟩

/-! ## Reading a text -/

theorem getElem?_toArray_append (front rest : List Char) :
    (front ++ rest).toArray[front.length]? = rest.head? := by
  rw [List.getElem?_toArray, List.getElem?_append_right (Nat.le_refl _), Nat.sub_self,
    List.head?_eq_getElem?]

theorem isIn_append {set : Char → Bool} (front rest : List Char) :
    isIn set (front ++ rest).toArray front.length = rest.head?.any set := by
  rw [isIn, getElem?_toArray_append]
  cases rest <;> rfl

theorem exists_of_isIn {set : Char → Bool} {front rest : List Char}
    (h : isIn set (front ++ rest).toArray front.length = true) :
    ∃ c back, rest = c :: back ∧ set c = true := by
  rw [isIn_append] at h
  cases rest with
  | nil => cases h
  | cons c back => exact ⟨c, back, rfl, h⟩

theorem exists_of_goesOnWith {characters front rest : List Char}
    (h : goesOnWith (front ++ rest).toArray characters front.length = true) :
    ∃ back, rest = characters ++ back := by
  induction characters generalizing front rest with
  | nil => exact ⟨rest, rfl⟩
  | cons c characters ih =>
    rw [goesOnWith, getElem?_toArray_append] at h
    cases rest with
    | nil => cases h
    | cons found rest =>
      simp only [List.head?_cons] at h
      split at h
      · rename_i heq
        -- the character read goes over to the text in front
        have htext : front ++ found :: rest = (front ++ [found]) ++ rest := by simp
        have hlength : front.length + 1 = (front ++ [found]).length := by simp
        rw [htext, hlength] at h
        obtain ⟨back, hback⟩ := ih h
        exact ⟨back, by rw [heq, hback, List.cons_append]⟩
      · cases h

/-! ## Searches -/

/-- A search for a run goes on behind characters of the set. -/
theorem exists_run_of_outcome {set : Char → Bool} {front rest : List Char} {next : Search}
    {outcome : Outcome}
    (h : (before (front ++ rest).toArray (many set) next).outcome front.length = some outcome) :
    ∃ stretch back, rest = stretch ++ back ∧ (∀ c ∈ stretch, set c = true) ∧
      next.outcome (front.length + stretch.length) = some outcome := by
  -- the run takes the next character or ends here
  induction rest generalizing front with
  | nil =>
    rw [outcome_before_many (by simp), isIn_append] at h
    exact ⟨[], [], rfl, by simp, h⟩
  | cons c rest ih =>
    rw [outcome_before_many (by simp), Option.or_eq_some_iff] at h
    rcases h with h | ⟨-, h⟩
    · rw [isIn_append, List.head?_cons, Option.any_some] at h
      split at h
      · rename_i hc
        have htext : front ++ c :: rest = (front ++ [c]) ++ rest := by simp
        have hlength : front.length + 1 = (front ++ [c]).length := by simp
        rw [htext, hlength] at h
        obtain ⟨stretch, back, rfl, hstretch, hlater⟩ := ih h
        refine ⟨c :: stretch, back, rfl, List.forall_mem_cons.2 ⟨hc, hstretch⟩, ?_⟩
        rw [← hlater, ← hlength, List.length_cons, Nat.add_assoc, Nat.add_comm 1]
      · cases h
    · exact ⟨[], c :: rest, rfl, by simp, h⟩

/-- The outcomes of a search come from stretches that the pattern describes. -/
theorem exists_describes_of_outcome {p : Pattern} {front rest : List Char} {next : Search}
    {outcome : Outcome}
    (h : (before (front ++ rest).toArray p next).outcome front.length = some outcome) :
    ∃ stretch back kept later, rest = stretch ++ back ∧ p.Describes stretch kept ∧
      next.outcome (front.length + stretch.length) = some later ∧
      outcome = later.behind front.length kept := by
  induction p generalizing front rest next outcome with
  | word characters =>
    simp only [before] at h
    split at h
    · -- the characters of the word stand at the place
      rename_i hword
      obtain ⟨back, rfl⟩ := exists_of_goesOnWith hword
      exact ⟨characters, back, none, outcome, rfl, ⟨rfl, rfl⟩, h, rfl⟩
    · cases h
  | one set =>
    simp only [before] at h
    split at h
    · rename_i hone
      obtain ⟨c, back, rfl, hc⟩ := exists_of_isIn hone
      exact ⟨[c], back, none, outcome, rfl, ⟨⟨c, rfl, hc⟩, rfl⟩, h, rfl⟩
    · cases h
  | many set =>
    obtain ⟨stretch, back, rfl, hstretch, hlater⟩ := exists_run_of_outcome h
    exact ⟨stretch, back, none, outcome, rfl, ⟨hstretch, rfl⟩, hlater, rfl⟩
  | seq first second ihfirst ihsecond =>
    -- the second part is sought behind what the first one takes
    obtain ⟨here, beyond, keptHere, middle, rfl, hfirst, hmiddle, rfl⟩ := ihfirst h
    rw [← List.append_assoc, ← List.length_append] at hmiddle
    obtain ⟨there, back, keptThere, later, rfl, hsecond, hlater, rfl⟩ := ihsecond hmiddle
    refine ⟨here ++ there, back, _, later, by simp, ⟨here, there, _, _, rfl, hfirst, hsecond, rfl⟩,
      ?_, ?_⟩
    · simpa [Nat.add_assoc] using hlater
    · -- what the first part keeps goes before what the second one keeps
      cases keptHere <;> cases keptThere <;> simp [Outcome.behind, Nat.add_assoc]
  | either first second ihfirst ihsecond =>
    simp only [before, Search.orElse, Option.or_eq_some_iff] at h
    rcases h with h | ⟨-, h⟩
    · obtain ⟨stretch, back, kept, later, hrest, hfirst, hlater⟩ := ihfirst h
      exact ⟨stretch, back, kept, later, hrest, Or.inl hfirst, hlater⟩
    · obtain ⟨stretch, back, kept, later, hrest, hsecond, hlater⟩ := ihsecond h
      exact ⟨stretch, back, kept, later, hrest, Or.inr hsecond, hlater⟩
  | capture inner ih =>
    -- the end of the text to keep is noted behind the inner pattern, its start in front of it
    simp only [before, Search.opening, Option.map_eq_some_iff] at h
    obtain ⟨opened, hopened, rfl⟩ := h
    obtain ⟨stretch, back, within, closed, rfl, hinner, hclosed, rfl⟩ := ih hopened
    simp only [Search.closing, Option.map_eq_some_iff] at hclosed
    obtain ⟨later, hlater, rfl⟩ := hclosed
    refine ⟨stretch, back, _, later, rfl, ⟨within, hinner, rfl⟩, hlater, ?_⟩
    cases within <;> simp [Outcome.behind]

/-! ## Matches -/

theorem outcome_of_mem_findFrom {search : Search} {count first resume : Nat}
    {found : List (Nat × Outcome)} {entry : Nat × Outcome}
    (h : entry ∈ findFrom search count first resume found) :
    entry ∈ found ∨
      search.outcome entry.1 = some entry.2 ∧ first ≤ entry.1 ∧ entry.1 < first + count := by
  induction count generalizing first resume found with
  | zero => exact Or.inl (List.mem_reverse.1 h)
  | succ count ih =>
    rw [findFrom] at h
    split at h
    · -- the place lies within the last match
      rcases ih h with hfound | ⟨houtcome, hfirst, hlast⟩
      · exact Or.inl hfound
      · exact Or.inr ⟨houtcome, by omega, by omega⟩
    · split at h
      · rcases ih h with hfound | ⟨houtcome, hfirst, hlast⟩
        · exact Or.inl hfound
        · exact Or.inr ⟨houtcome, by omega, by omega⟩
      · rename_i outcome houtcome
        rcases ih h with hfound | ⟨hentry, hfirst, hlast⟩
        · rcases List.mem_cons.1 hfound with rfl | hfound
          · exact Or.inr ⟨houtcome, Nat.le_refl _, by omega⟩
          · exact Or.inl hfound
        · exact Or.inr ⟨hentry, by omega, by omega⟩

/-- A place is passed over within the last match and where there is none. -/
theorem findFrom_passed {search : Search} {place resume : Nat}
    (h : place < resume ∨ search.outcome place = none) (count : Nat)
    (found : List (Nat × Outcome)) :
    findFrom search (count + 1) place resume found =
      findFrom search count (place + 1) resume found := by
  rw [findFrom]
  split
  · rfl
  · rename_i hresume
    rw [h.resolve_left hresume]

theorem findFrom_met {search : Search} {place resume : Nat} {outcome : Outcome}
    (hresume : resume ≤ place) (houtcome : search.outcome place = some outcome) (count : Nat)
    (found : List (Nat × Outcome)) :
    findFrom search (count + 1) place resume found =
      findFrom search count (place + 1) outcome.stop ((place, outcome) :: found) := by
  rw [findFrom, if_neg (Nat.not_lt.2 hresume), houtcome]

theorem foldl_offsets (text : List Char) :
    text.foldl (fun (found : Array Nat × Nat) c =>
        (found.1.push (found.2 + c.utf8Size), found.2 + c.utf8Size)) (#[0], 0) =
      (((List.range (text.length + 1)).map fun place => byteLength (text.take place)).toArray,
        byteLength text) := by
  -- the last character adds one place, and its size to the bytes before it
  induction text using List.reverseRecOn with
  | nil => rfl
  | append_singleton text c ih =>
    have hfront : (List.range (text.length + 1)).map (fun place => byteLength (text.take place)) =
        (List.range (text.length + 1)).map fun place => byteLength ((text ++ [c]).take place) := by
      apply List.map_congr_left
      intro place hplace
      rw [List.mem_range] at hplace
      rw [List.take_append_of_le_length (by omega)]
    have hwhole : (text ++ [c]).take (text.length + 1) = text ++ [c] :=
      List.take_of_length_le (by simp)
    rw [List.foldl_append, ih, hfront, List.length_append, List.length_singleton,
      @List.range_succ (text.length + 1), List.map_append, List.map_singleton, hwhole,
      Text.byteLength_append]
    simp [byteLength]

/-- The offset of a place is the number of bytes before it. -/
theorem getElem?_byteOffsets {text : List Char} {place : Nat} (h : place ≤ text.length) :
    (byteOffsets text.toArray)[place]? = some (byteLength (text.take place)) := by
  have hoffsets := congrArg Prod.fst (foldl_offsets text)
  rw [← List.foldl_toArray] at hoffsets
  have hbytes : byteOffsets text.toArray = _ := hoffsets
  rw [hbytes, List.getElem?_toArray, List.getElem?_map, List.getElem?_range (by omega)]
  rfl

/-- The text to keep lies on the stretch that is described. -/
theorem le_length_of_describes {p : Pattern} {stretch : List Char} {kept : Option (Nat × Nat)}
    (h : p.Describes stretch kept) : ∀ span ∈ kept, span.2 ≤ stretch.length := by
  induction p generalizing stretch kept with
  | word characters => obtain ⟨-, rfl⟩ := h; simp
  | one set => obtain ⟨-, rfl⟩ := h; simp
  | many set => obtain ⟨-, rfl⟩ := h; simp
  | seq first second ihfirst ihsecond =>
    obtain ⟨front, back, here, there, rfl, hfirst, hsecond, rfl⟩ := h
    intro span hspan
    have hfront := ihfirst hfirst
    have hback := ihsecond hsecond
    rw [List.length_append]
    -- the text that the first part keeps goes before that of the second one
    cases here with
    | some span' =>
      obtain rfl := Option.some.inj hspan
      have hle := hfront _ rfl
      omega
    | none =>
      cases there with
      | none => cases hspan
      | some span' =>
        obtain rfl := Option.some.inj hspan
        have hle := hback _ rfl
        simp only
        omega
  | either first second ihfirst ihsecond => exact h.elim ihfirst ihsecond
  | capture inner ih =>
    obtain ⟨within, hinner, rfl⟩ := h
    intro span hspan
    obtain rfl := Option.some.inj hspan
    cases within with
    | none => exact Nat.le_refl _
    | some span' => exact ih hinner span' rfl

/-- What a match keeps of a stretch of a text. -/
theorem keptText_behind {front stretch back : List Char} {kept : Option (Nat × Nat)}
    (hkept : ∀ span ∈ kept, span.2 ≤ stretch.length) (stop : Nat) :
    keptText (front ++ (stretch ++ back)).toArray
        (Outcome.behind ⟨stop, none, none⟩ front.length kept) =
      kept.map fun span => String.ofList ((stretch.take span.2).drop span.1) := by
  cases kept with
  | none => rfl
  | some span =>
    have hle := hkept span rfl
    have hextract : ((front ++ (stretch ++ back)).toArray.extract (front.length + span.1)
        (front.length + span.2)).toList = (stretch.take span.2).drop span.1 := by
      rw [List.extract_toArray, List.extract_eq_take_drop, List.drop_length_add_append,
        Nat.add_sub_add_left, ← List.drop_take, List.take_append_of_le_length hle]
    show some (String.ofList _) = some (String.ofList _)
    rw [hextract]

/-- The matches of a text are stretches that the pattern describes, and where its search ends. -/
theorem exists_outcome_of_mem_findAll {p : Pattern} {text : List Char} {found : Match}
    (h : found ∈ p.findAll text) :
    ∃ front stretch back kept, text = front ++ (stretch ++ back) ∧ p.Describes stretch kept ∧
      found.start = byteLength front ∧ found.stop = byteLength (front ++ stretch) ∧
      found.group = kept.map (fun span => String.ofList ((stretch.take span.2).drop span.1)) ∧
      (p.before text.toArray .done).outcome front.length =
        some (Outcome.behind ⟨front.length + stretch.length, none, none⟩ front.length kept) := by
  simp only [findAll, List.mem_map] at h
  obtain ⟨⟨place, outcome⟩, hentry, rfl⟩ := h
  rcases outcome_of_mem_findFrom hentry with hnil | ⟨houtcome, -, hplace⟩
  · exact absurd hnil List.not_mem_nil
  · -- the text is cut at the place of the match
    rw [List.size_toArray] at hplace
    have hlength : (text.take place).length = place := by
      rw [List.length_take]
      omega
    have htext : text = text.take place ++ text.drop place :=
      (List.take_append_drop place text).symm
    generalize text.take place = front at hlength htext
    generalize text.drop place = rest at htext
    subst htext hlength
    obtain ⟨stretch, back, kept, later, rfl, hdescribes, hlater, rfl⟩ :=
      exists_describes_of_outcome houtcome
    obtain rfl := Option.some.inj hlater
    refine ⟨front, stretch, back, kept, rfl, hdescribes, ?_, ?_,
      keptText_behind (le_length_of_describes hdescribes) _, houtcome⟩
    · show (byteOffsets _)[front.length]?.getD 0 = byteLength front
      rw [getElem?_byteOffsets (by simp), List.take_left, Option.getD_some]
    · show (byteOffsets _)[front.length + stretch.length]?.getD 0 = byteLength (front ++ stretch)
      have htake : (front ++ (stretch ++ back)).take (front.length + stretch.length) =
          front ++ stretch := by
        rw [← List.append_assoc, ← List.length_append, List.take_left]
      rw [getElem?_byteOffsets (by simp), htake, Option.getD_some]

/-- The matches of a text are stretches that the pattern describes. -/
theorem exists_describes_of_mem_findAll {p : Pattern} {text : List Char} {found : Match}
    (h : found ∈ p.findAll text) :
    ∃ front stretch back kept, text = front ++ (stretch ++ back) ∧ p.Describes stretch kept ∧
      found.start = byteLength front ∧ found.stop = byteLength (front ++ stretch) ∧
      found.group = kept.map fun span => String.ofList ((stretch.take span.2).drop span.1) := by
  obtain ⟨front, stretch, back, kept, htext, hdescribes, hstart, hstop, hgroup, -⟩ :=
    exists_outcome_of_mem_findAll h
  exact ⟨front, stretch, back, kept, htext, hdescribes, hstart, hstop, hgroup⟩

/-- A search does not go beyond the end of the text. -/
theorem stop_le_of_outcome {p : Pattern} {text : List Char} {place : Nat} {outcome : Outcome}
    (hplace : place ≤ text.length)
    (h : (p.before text.toArray .done).outcome place = some outcome) :
    outcome.stop ≤ text.length := by
  have hlength : (text.take place).length = place := by
    rw [List.length_take]
    omega
  have htext := (List.take_append_drop place text).symm
  generalize text.take place = front at hlength htext
  generalize text.drop place = rest at htext
  subst htext hlength
  obtain ⟨stretch, back, kept, later, rfl, -, hlater, rfl⟩ := exists_describes_of_outcome h
  obtain rfl := Option.some.inj hlater
  show front.length + stretch.length ≤ _
  simp

/-! ## The order of matches -/

/-- Matches are found from left to right, none before the end of an earlier one. -/
theorem pairwise_findFrom {search : Search} {count place resume : Nat}
    {found : List (Nat × Outcome)}
    (hfound : found.Pairwise fun later entry => entry.2.stop ≤ later.1)
    (hbound : ∀ entry ∈ found, entry.2.stop ≤ max place resume) :
    (findFrom search count place resume found).Pairwise fun entry later =>
      entry.2.stop ≤ later.1 := by
  induction count generalizing place resume found with
  | zero =>
    rw [findFrom, List.pairwise_reverse]
    exact hfound
  | succ count ih =>
    have hnext : ∀ entry ∈ found, entry.2.stop ≤ max (place + 1) resume := fun entry hentry =>
      Nat.le_trans (hbound entry hentry) (by omega)
    rw [findFrom]
    split
    · exact ih hfound hnext
    · rename_i hresume
      split
      · exact ih hfound hnext
      · -- a new match lies behind the ends of all that were found
        rename_i outcome _
        have hbefore : ∀ entry ∈ found, entry.2.stop ≤ place := fun entry hentry =>
          Nat.le_trans (hbound entry hentry) (by omega)
        refine ih (List.pairwise_cons.2 ⟨hbefore, hfound⟩) fun entry hentry => ?_
        rcases List.mem_cons.1 hentry with rfl | hentry
        · exact Nat.le_max_right _ _
        · have hle := hbefore entry hentry
          omega

theorem byteLength_take_mono (text : List Char) {first last : Nat} (h : first ≤ last) :
    byteLength (text.take first) ≤ byteLength (text.take last) := by
  rw [← List.take_append_drop first (text.take last), List.take_take, Nat.min_eq_left h,
    Text.byteLength_append]
  exact Nat.le_add_right _ _

/-- No match of a text starts before the end of an earlier one. -/
theorem pairwise_findAll (p : Pattern) (text : List Char) :
    (p.findAll text).Pairwise fun found later => found.stop ≤ later.start := by
  have hplaces : (findFrom (p.before text.toArray .done) (text.toArray.size + 1) 0 0 []).Pairwise
      fun entry later => entry.2.stop ≤ later.1 := pairwise_findFrom List.Pairwise.nil (by simp)
  rw [findAll, List.pairwise_map]
  refine hplaces.imp_of_mem fun {entry later} _ hlater hle => ?_
  -- places of the text are counted in bytes in the same order
  have hwithin : later.1 ≤ text.length := by
    rcases outcome_of_mem_findFrom hlater with hnil | ⟨-, -, hplace⟩
    · exact absurd hnil List.not_mem_nil
    · rw [List.size_toArray] at hplace
      omega
  show (byteOffsets _)[entry.2.stop]?.getD 0 ≤ (byteOffsets _)[later.1]?.getD 0
  rw [getElem?_byteOffsets hwithin, getElem?_byteOffsets (Nat.le_trans hle hwithin)]
  exact byteLength_take_mono text hle

end Pattern

end CodeSurvey
