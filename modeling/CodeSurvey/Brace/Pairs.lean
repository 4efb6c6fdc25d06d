import CodeSurvey.Brace

/-!
# Brace pairs

The brace pairs of a text, all at once. The text is read from its end, and the closing braces that
have not met their partner are kept, innermost first. So every character is looked at once, however
many block ends are asked for. `blockEnds_eq_map` and `spans_eq_map` say that these are the ends and
spans that are found one by one.
-/

namespace CodeSurvey.Brace

open Text (Cursor byteLength)

/-- The bytes from an opening brace to the one that closes it. -/
def pair (opening : Cursor) : Span :=
  ⟨opening.offset, closing opening⟩

/-- What is known of a text that has been read from its end up to a place. -/
structure Behind where
  /-- The number of bytes before the place. -/
  offset : Nat
  /-- The offsets of the braces that close what is opened before the place, innermost first. -/
  closers : List Nat
  /-- The first pair behind the place. -/
  next : Option Span
  /-- For each byte behind the place the first pair that does not open before it. -/
  table : List (Option Span)

namespace Behind

/-- What is known at the end of a text of `length` bytes. -/
def atEnd (length : Nat) : Behind :=
  ⟨length, [], none, []⟩

/-- Reads the character before the place. -/
def read (c : Char) (behind : Behind) : Behind :=
  let offset := behind.offset - c.utf8Size
  let next :=
    if c = '\x7b' then some ⟨offset, behind.closers.headD offset⟩ else behind.next
  let closers :=
    if c = '\x7b' then behind.closers.tail
    else if c = '\x7d' then offset :: behind.closers
    else behind.closers
  ⟨offset, closers, next, List.replicate c.utf8Size next ++ behind.table⟩

/-- What is known of a whole text. -/
def ofText (text : List Char) : Behind :=
  text.foldr read (atEnd (byteLength text))

/-- What is known agrees with the text behind the place. -/
structure Knows (behind : Behind) (text : List Char) : Prop where
  closers : ∀ depth, behind.closers[depth]? = closeFrom (depth + 1) behind.offset text
  next : behind.next = (openFrom behind.offset text).map pair
  found : ∀ target cursor, Cursor.seekFrom target behind.offset text = some cursor →
    behind.table[target - behind.offset]?.join = (openFrom cursor.offset cursor.rest).map pair
  missed : ∀ target, behind.offset ≤ target →
    Cursor.seekFrom target behind.offset text = none →
      ∀ span, behind.table[target - behind.offset]?.join = some span → target < span.first

end Behind

theorem le_of_openFrom {offset : Nat} {text : List Char} {opening : Cursor}
    (h : openFrom offset text = some opening) : offset ≤ opening.offset := by
  induction text generalizing offset with
  | nil => simp [openFrom] at h
  | cons c rest ih =>
    rw [openFrom] at h
    split at h
    · injection h with h
      simp [← h]
    · exact Nat.le_trans (Nat.le_add_right _ _) (ih h)

namespace Behind

theorem knows_atEnd (length : Nat) : (atEnd length).Knows [] where
  closers := by simp [atEnd, closeFrom]
  next := by simp [atEnd, openFrom]
  found := by
    intro target cursor h
    rw [Cursor.seekFrom] at h
    split at h
    · injection h with h
      simp [← h, atEnd, openFrom]
    · simp at h
  missed := by simp [atEnd]

/-- What is known grows with each character. -/
theorem knows_read {behind : Behind} {c : Char} {rest : List Char} (h : behind.Knows rest)
    (hsize : c.utf8Size ≤ behind.offset) : (behind.read c).Knows (c :: rest) := by
  obtain ⟨offset, heq⟩ : ∃ offset, behind.offset = offset + c.utf8Size :=
    ⟨behind.offset - c.utf8Size, by omega⟩
  have hpos := c.utf8Size_pos
  have hopen : (behind.read c).next = (openFrom offset (c :: rest)).map pair := by
    rw [openFrom]
    by_cases hc : c = '\x7b'
    · subst hc
      have hsize : Char.utf8Size '\x7b' = 1 := by decide
      rw [hsize] at heq
      simp [read, pair, closing, heq, hsize, h.closers, List.headD_eq_head?_getD,
        List.head?_eq_getElem?]
    · simp [read, hc, h.next, heq]
  have hoffset : (behind.read c).offset = offset := by simp [read, heq]
  have htable : (behind.read c).table =
      List.replicate c.utf8Size (behind.read c).next ++ behind.table := rfl
  refine ⟨?_, hoffset ▸ hopen, ?_, ?_⟩
  · intro depth
    rw [hoffset, closeFrom]
    by_cases hc : c = '\x7b'
    · subst hc
      simp [read, h.closers, heq, show Char.utf8Size '\x7b' = 1 by decide]
    · by_cases hc' : c = '\x7d'
      · subst hc'
        cases depth <;> simp [read, h.closers, heq, show Char.utf8Size '\x7d' = 1 by decide]
      · simp [read, hc, hc', h.closers, heq]
  · intro target cursor hseek
    rw [hoffset, Cursor.seekFrom] at hseek
    rw [hoffset, htable]
    split at hseek
    · rename_i heq'
      injection hseek with hseek
      rw [← hseek, ← heq', Nat.sub_self, List.getElem?_append_left (by simpa using hpos),
        List.getElem?_replicate_of_lt hpos, Option.join_some, hopen]
    · split at hseek
      · simp at hseek
      · rw [← heq] at hseek
        have hle := Cursor.le_of_seekFrom hseek
        rw [List.getElem?_append_right (by simp; omega), List.length_replicate,
          show target - offset - c.utf8Size = target - behind.offset by omega]
        exact h.found target cursor hseek
  · intro target hle hseek span hspan
    rw [hoffset, Cursor.seekFrom] at hseek
    rw [hoffset] at hle hspan
    rw [htable] at hspan
    split at hseek
    · simp at hseek
    · split at hseek
      · omega
      · by_cases hlt : target - offset < c.utf8Size
        · have hc : c ≠ '\x7b' := by
            rintro rfl
            rw [show Char.utf8Size '\x7b' = 1 by decide] at hlt
            omega
          rw [List.getElem?_append_left (by simpa using hlt), List.getElem?_replicate_of_lt hlt,
            Option.join_some, hopen, openFrom, if_neg hc, ← heq, Option.map_eq_some_iff] at hspan
          obtain ⟨opening, hopening, rfl⟩ := hspan
          have hle := le_of_openFrom hopening
          exact show target < opening.offset by omega
        · rw [List.getElem?_append_right (by simp; omega), List.length_replicate,
            show target - offset - c.utf8Size = target - behind.offset by omega] at hspan
          exact h.missed target (by omega) (heq ▸ hseek) span hspan

theorem offset_ofText_add (text : List Char) (length : Nat) (h : byteLength text ≤ length) :
    (text.foldr read (atEnd length)).offset + byteLength text = length := by
  induction text with
  | nil => simp [atEnd, byteLength]
  | cons c rest ih =>
    rw [Text.byteLength_cons] at h ⊢
    have hrest := ih (by omega)
    have hoffset (behind : Behind) : (behind.read c).offset = behind.offset - c.utf8Size := rfl
    rw [List.foldr_cons, hoffset]
    omega

theorem knows_foldr (text : List Char) (length : Nat) (h : byteLength text ≤ length) :
    (text.foldr read (atEnd length)).Knows text := by
  induction text with
  | nil => exact knows_atEnd length
  | cons c rest ih =>
    rw [Text.byteLength_cons] at h
    have hoffset := offset_ofText_add rest length (by omega)
    exact knows_read (ih (by omega)) (by omega)

theorem offset_ofText (text : List Char) : (ofText text).offset = 0 := by
  have h := offset_ofText_add text (byteLength text) (Nat.le_refl _)
  rw [ofText]
  omega

/-- What is known of a whole text agrees with it. -/
theorem knows_ofText (text : List Char) : (ofText text).Knows text :=
  knows_foldr text (byteLength text) (Nat.le_refl _)

end Behind

/-- For each byte of a text the first pair that does not open before it. -/
def pairTable (text : List Char) : Array (Option Span) :=
  (Behind.ofText text).table.toArray

/-- The offset of the brace that closes the one at byte `opening`, from the table of the text. -/
def endIn (table : Array (Option Span)) (opening : Nat) : Nat :=
  match table[opening]?.join with
  | some found => if found.first = opening then found.last else opening
  | none => opening

/-- The block ends of several bytes of a text. -/
def blockEnds (text : List Char) (openings : List Nat) : List Nat :=
  let table := Thunk.mk fun _ => pairTable text
  openings.map fun opening => endIn table.get opening

/-- The block spans from several bytes of a text. -/
def spans (text : List Char) (starts : List Nat) : List (Option Span) :=
  let table := Thunk.mk fun _ => pairTable text
  (Cursor.seekAll text starts).map fun place =>
    place.bind fun cursor =>
      table.get[cursor.offset]?.join.map fun found => ⟨cursor.offset, found.last⟩

/-- The block spans from several bytes of a text, those without one left out. -/
def blockSpans (text : List Char) (starts : List Nat) : List Span :=
  (spans text starts).filterMap id

/-- The table of a text has the first pair behind each place. -/
theorem join_getElem?_pairTable {text : List Char} {target : Nat} {cursor : Cursor}
    (h : Cursor.seek text target = some cursor) :
    (pairTable text)[target]?.join = (openFrom cursor.offset cursor.rest).map pair := by
  have hknows := (Behind.knows_ofText text).found target cursor
  rw [Behind.offset_ofText] at hknows
  rw [pairTable, List.getElem?_toArray]
  exact hknows h

theorem endIn_pairTable (text : List Char) (opening : Nat) :
    endIn (pairTable text) opening = blockEnd text opening := by
  unfold endIn blockEnd
  cases h : Cursor.seek text opening with
  | some cursor =>
    have hoffset := Cursor.seek_offset h
    rw [join_getElem?_pairTable h]
    obtain ⟨offset, rest⟩ := cursor
    subst hoffset
    cases rest with
    | nil => rfl
    | cons c rest =>
      by_cases hc : c = '\x7b'
      · simp [openFrom, hc, pair]
      · have hown : closing ⟨offset, c :: rest⟩ = offset := closing_eq_offset (by simpa using hc)
        simp only [openFrom, if_neg hc, hown]
        split
        · rename_i found hfound
          obtain ⟨place, hplace, rfl⟩ := Option.map_eq_some_iff.1 hfound
          have hle := le_of_openFrom hplace
          have hpos := c.utf8Size_pos
          exact if_neg (show place.offset ≠ offset by omega)
        · rfl
  | none =>
    have hmissed := (Behind.knows_ofText text).missed opening
    rw [Behind.offset_ofText] at hmissed
    rw [pairTable, List.getElem?_toArray]
    split
    · rename_i found hfound
      have hlt := hmissed (Nat.zero_le _) h found hfound
      rw [if_neg (by omega)]
    · rfl

/-- The block ends are those that are found one by one. -/
theorem blockEnds_eq_map (text : List Char) (openings : List Nat) :
    blockEnds text openings = openings.map (blockEnd text) := by
  simp only [blockEnds, Thunk.get, endIn_pairTable]

/-- The block spans are those that are found one by one. -/
theorem spans_eq_map (text : List Char) (starts : List Nat) :
    spans text starts = starts.map (blockSpan text) := by
  rw [spans, Cursor.seekAll_eq_map, List.map_map]
  refine List.map_congr_left fun start _ => ?_
  simp only [Function.comp_apply, blockSpan]
  cases h : Cursor.seek text start with
  | none => rfl
  | some cursor =>
    have hoffset := Cursor.seek_offset h
    rw [Option.bind_some, Option.bind_some, spanAt, hoffset, Thunk.get,
      join_getElem?_pairTable h, Option.map_map, hoffset]
    rfl

theorem blockSpans_eq_filterMap (text : List Char) (starts : List Nat) :
    blockSpans text starts = starts.filterMap (blockSpan text) := by
  rw [blockSpans, spans_eq_map, List.filterMap_map]
  rfl

end CodeSurvey.Brace
