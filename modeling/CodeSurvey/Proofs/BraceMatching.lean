import Mathlib.Data.List.Induction
import CodeSurvey.Brace

/-!
# Brace matching

Where the brace that closes another one stands. Along a text, what has been opened and not yet
closed is counted; a brace is closed at the first place at which nothing is left of the count. The
deeper a place lies, the later the braces that are open there have all been closed; so a brace that
is opened within a block is closed within it, and different opening braces have different ends.

## Key results

- `closeFrom_append_of_staysOpen`: braces are counted on behind a stretch that stays open
- `exists_closeFrom_lt`: inner braces are closed first
- `ends_iff`: the end that is found is the first place at which the braces balance, if there is one
- `closing_cases`: how the ends of two opening braces lie
- `exists_blockSpan`: which block the span behind a place ends with
-/

namespace CodeSurvey.Brace

open Text (Cursor byteLength)

/-! ## Stretches that stay open -/

/-- However far a stretch is read, `depth` braces that were open before it and those opened on the
way have not all been closed. -/
def StaysOpen (depth : Nat) (text : List Char) : Prop :=
  ∀ front, front <+: text → front.count '\x7d' < depth + front.count '\x7b'

theorem staysOpen_nil {depth : Nat} : StaysOpen depth [] ↔ 0 < depth := by
  simp [StaysOpen, List.prefix_nil]

theorem pos_of_staysOpen {depth : Nat} {text : List Char} (h : StaysOpen depth text) :
    0 < depth :=
  h [] List.nil_prefix

theorem staysOpen_cons {depth : Nat} {c : Char} {rest : List Char} :
    StaysOpen depth (c :: rest) ↔ 0 < depth ∧
      ∀ front, front <+: rest → (c :: front).count '\x7d' < depth + (c :: front).count '\x7b' := by
  constructor
  · intro h
    exact ⟨pos_of_staysOpen h, fun front hfront => h _ (List.cons_prefix_cons.2 ⟨rfl, hfront⟩)⟩
  · rintro ⟨hpos, h⟩ front hfront
    rcases List.prefix_cons_iff.1 hfront with rfl | ⟨later, rfl, hlater⟩
    · exact hpos
    · exact h later hlater

theorem staysOpen_opening {depth : Nat} {rest : List Char} (hpos : 0 < depth) :
    StaysOpen depth ('\x7b' :: rest) ↔ StaysOpen (depth + 1) rest := by
  rw [staysOpen_cons, and_iff_right hpos]
  refine forall₂_congr fun front _ => ?_
  rw [List.count_cons_self, List.count_cons_of_ne (by decide)]
  omega

theorem staysOpen_closing {depth : Nat} {rest : List Char} :
    StaysOpen (depth + 1) ('\x7d' :: rest) ↔ StaysOpen depth rest := by
  rw [staysOpen_cons, and_iff_right (Nat.succ_pos depth)]
  refine forall₂_congr fun front _ => ?_
  rw [List.count_cons_self, List.count_cons_of_ne (by decide)]
  omega

theorem staysOpen_other {depth : Nat} {c : Char} {rest : List Char} (hpos : 0 < depth)
    (hopen : c ≠ '\x7b') (hclose : c ≠ '\x7d') :
    StaysOpen depth (c :: rest) ↔ StaysOpen depth rest := by
  rw [staysOpen_cons, and_iff_right hpos]
  refine forall₂_congr fun front _ => ?_
  rw [List.count_cons_of_ne hopen, List.count_cons_of_ne hclose]

theorem staysOpen_concat {depth : Nat} {text : List Char} {c : Char} :
    StaysOpen depth (text ++ [c]) ↔ StaysOpen depth text ∧
      (text ++ [c]).count '\x7d' < depth + (text ++ [c]).count '\x7b' := by
  constructor
  · intro h
    exact ⟨fun front hfront => h front (hfront.trans (List.prefix_append _ _)),
      h _ (List.prefix_refl _)⟩
  · rintro ⟨hopen, hcount⟩ front hfront
    rcases List.prefix_concat_iff.1 hfront with rfl | hfront
    · exact hcount
    · exact hopen front hfront

theorem staysOpen_mono {depth deeper : Nat} {text : List Char} (h : StaysOpen depth text)
    (hle : depth ≤ deeper) : StaysOpen deeper text := by
  intro front hfront
  have hlt := h front hfront
  omega

/-- A stretch stays open, or it has a first place at which all braces are closed. -/
theorem staysOpen_or_exists_closing {depth : Nat} (hpos : 0 < depth) (text : List Char) :
    StaysOpen depth text ∨ ∃ body back, text = body ++ '\x7d' :: back ∧ StaysOpen depth body ∧
      body.count '\x7d' + 1 = depth + body.count '\x7b' := by
  induction text using List.reverseRecOn with
  | nil => exact Or.inl (staysOpen_nil.2 hpos)
  | append_singleton text c ih =>
    rcases ih with hopen | ⟨body, back, rfl, hbody, hlast⟩
    · by_cases hcount : (text ++ [c]).count '\x7d' < depth + (text ++ [c]).count '\x7b'
      · exact Or.inl (staysOpen_concat.2 ⟨hopen, hcount⟩)
      · -- only a closing brace can close the last one that is open
        have hbefore := hopen text (List.prefix_refl _)
        rw [List.count_append, List.count_append, List.count_singleton, List.count_singleton]
          at hcount
        by_cases hc : c = '\x7d'
        · subst hc
          refine Or.inr ⟨text, [], rfl, hopen, ?_⟩
          simp at hcount
          omega
        · simp [hc] at hcount
          omega
    · -- what is closed before the last character stays so
      exact Or.inr ⟨body, back ++ [c], by simp, hbody, hlast⟩

/-! ## Where braces are closed -/

theorem le_of_closeFrom {depth offset last : Nat} {text : List Char}
    (h : closeFrom depth offset text = some last) : offset ≤ last := by
  induction text generalizing depth offset with
  | nil => exact nomatch h
  | cons c rest ih =>
    rw [closeFrom] at h
    split at h
    · have hle := ih h
      omega
    · split at h
      · split at h
        · exact Nat.le_of_eq (Option.some.inj h)
        · have hle := ih h
          omega
      · have hle := ih h
        omega

/-- Behind a stretch that stays open, braces are counted on. -/
theorem closeFrom_append_of_staysOpen {depth : Nat} {front : List Char} (h : StaysOpen depth front)
    (offset : Nat) (back : List Char) :
    closeFrom depth offset (front ++ back) =
      closeFrom (depth + front.count '\x7b' - front.count '\x7d') (offset + byteLength front)
        back := by
  -- the depth that is left is what was open, and what was opened and not closed on the way
  induction front generalizing depth offset with
  | nil => rfl
  | cons c front ih =>
    have hpos := pos_of_staysOpen h
    rw [List.cons_append, closeFrom, Text.byteLength_cons, ← Nat.add_assoc]
    split
    · rename_i hopen
      subst hopen
      have hdepth : depth + ('\x7b' :: front).count '\x7b' - ('\x7b' :: front).count '\x7d' =
          depth + 1 + front.count '\x7b' - front.count '\x7d' := by
        rw [List.count_cons_self, List.count_cons_of_ne (by decide)]
        omega
      rw [hdepth]
      exact ih ((staysOpen_opening hpos).1 h) _
    · rename_i hopen
      split
      · rename_i hclose
        subst hclose
        obtain ⟨less, rfl⟩ := Nat.exists_eq_succ_of_ne_zero (Nat.ne_of_gt hpos)
        have hrest := staysOpen_closing.1 h
        -- at least one brace is left open behind this one
        have hless := pos_of_staysOpen hrest
        have hdepth : less + 1 + ('\x7d' :: front).count '\x7b' - ('\x7d' :: front).count '\x7d' =
            less + front.count '\x7b' - front.count '\x7d' := by
          rw [List.count_cons_self, List.count_cons_of_ne (by decide)]
          omega
        rw [Nat.succ_eq_add_one, hdepth, if_neg (by omega)]
        exact ih hrest _
      · rename_i hclose
        rw [List.count_cons_of_ne hopen, List.count_cons_of_ne hclose]
        exact ih ((staysOpen_other hpos hopen hclose).1 h) _

/-- Nothing closes all braces of a stretch that stays open. -/
theorem closeFrom_eq_none {depth : Nat} {text : List Char} (h : StaysOpen depth text)
    (offset : Nat) : closeFrom depth offset text = none := by
  have hempty := closeFrom_append_of_staysOpen h offset []
  rwa [List.append_nil] at hempty

/-- The last brace that is open behind a stretch is closed right there. -/
theorem closeFrom_append_closing {depth : Nat} {body : List Char} (h : StaysOpen depth body)
    (hlast : body.count '\x7d' + 1 = depth + body.count '\x7b') (offset : Nat)
    (back : List Char) :
    closeFrom depth offset (body ++ '\x7d' :: back) = some (offset + byteLength body) := by
  rw [closeFrom_append_of_staysOpen h, closeFrom, if_neg (by decide), if_pos rfl, if_pos (by omega)]

/-- Inner braces are closed first. -/
theorem exists_closeFrom_lt {inner outer offset last : Nat} {text : List Char}
    (hpos : 0 < inner) (hlt : inner < outer) (h : closeFrom outer offset text = some last) :
    ∃ first, closeFrom inner offset text = some first ∧ first < last := by
  rcases staysOpen_or_exists_closing hpos text with hopen | ⟨body, back, rfl, hopen, hlast⟩
  · have hnone := closeFrom_eq_none (staysOpen_mono hopen (Nat.le_of_lt hlt)) offset
    exact absurd (h.symm.trans hnone) (by simp)
  · refine ⟨_, closeFrom_append_closing hopen hlast offset back, ?_⟩
    -- where the inner braces are closed, outer ones are left
    rw [closeFrom_append_of_staysOpen (staysOpen_mono hopen (Nat.le_of_lt hlt)), closeFrom,
      if_neg (by decide), if_pos rfl, if_neg (by omega)] at h
    exact le_of_closeFrom h

/-! ## Ends of blocks -/

/-- An opening brace ends where it is closed, or at itself. -/
theorem closing_eq_getD (offset : Nat) (rest : List Char) :
    closing ⟨offset, '\x7b' :: rest⟩ = (closeFrom 1 (offset + 1) rest).getD offset := rfl

/-- An opening brace ends nowhere before itself. -/
theorem le_closing (offset : Nat) (rest : List Char) :
    offset ≤ closing ⟨offset, '\x7b' :: rest⟩ := by
  rw [closing_eq_getD]
  cases h : closeFrom 1 (offset + 1) rest with
  | none => exact Nat.le_refl _
  | some last =>
    have hle := le_of_closeFrom h
    rw [Option.getD_some]
    omega

/-- The block that a brace at byte `opening` opens ends at a byte: where that brace is closed, or at
the brace itself if nothing closes it. The brace stands before the given characters. -/
inductive Ends (opening : Nat) : (rest : List Char) → (last : Nat) → Prop where
  | closed (body back : List Char) :
      StaysOpen 1 body → body.count '\x7d' = body.count '\x7b' →
        Ends opening (body ++ '\x7d' :: back) (opening + 1 + byteLength body)
  | unclosed (rest : List Char) : StaysOpen 1 rest → Ends opening rest opening

theorem closing_of_ends {opening last : Nat} {rest : List Char} (h : Ends opening rest last) :
    closing ⟨opening, '\x7b' :: rest⟩ = last := by
  rw [closing_eq_getD]
  cases h with
  | closed body back hopen hcount =>
    rw [closeFrom_append_closing hopen (by omega), Option.getD_some]
  | unclosed _ hopen => rw [closeFrom_eq_none hopen, Option.getD_none]

/-- Each block has one end, and this is the one that is found. -/
theorem ends_iff (opening : Nat) (rest : List Char) (last : Nat) :
    Ends opening rest last ↔ last = closing ⟨opening, '\x7b' :: rest⟩ := by
  constructor
  · intro h
    exact (closing_of_ends h).symm
  · rintro rfl
    -- there is an end in either case, and it is the one that is found
    rcases staysOpen_or_exists_closing Nat.one_pos rest with hopen | ⟨body, back, rfl, hopen, hlast⟩
    · have hends : Ends opening rest opening := Ends.unclosed rest hopen
      rwa [closing_of_ends hends]
    · have hends : Ends opening _ _ := Ends.closed body back hopen (by omega)
      rwa [closing_of_ends hends]

/-- A brace that is opened behind another one is closed before it, unless nothing closes the outer
one or that has been closed in between. -/
theorem closing_cases (offset : Nat) (between back : List Char) :
    closing ⟨offset + 1 + byteLength between, '\x7b' :: back⟩ <
        closing ⟨offset, '\x7b' :: (between ++ '\x7b' :: back)⟩ ∨
      closing ⟨offset, '\x7b' :: (between ++ '\x7b' :: back)⟩ = offset ∨
      ∃ body later, between = body ++ '\x7d' :: later ∧
        closing ⟨offset, '\x7b' :: (between ++ '\x7b' :: back)⟩ =
          offset + 1 + byteLength body := by
  rw [closing_eq_getD offset]
  rcases staysOpen_or_exists_closing Nat.one_pos between with
    hopen | ⟨body, later, rfl, hopen, hlast⟩
  · cases houter : closeFrom 1 (offset + 1) (between ++ '\x7b' :: back) with
    | none => exact Or.inr (Or.inl rfl)
    | some last =>
      -- the inner brace is opened and closed within the outer ones
      have hleft := hopen between (List.prefix_refl _)
      rw [closeFrom_append_of_staysOpen hopen, closeFrom, if_pos rfl] at houter
      obtain ⟨first, hfirst, hlt⟩ := exists_closeFrom_lt Nat.one_pos (by omega) houter
      rw [closing_eq_getD, hfirst]
      exact Or.inl hlt
  · refine Or.inr (Or.inr ⟨body, later, rfl, ?_⟩)
    rw [List.append_assoc, List.cons_append, closeFrom_append_closing hopen hlast, Option.getD_some]

/-- An opening brace behind another one has another end. -/
theorem closing_ne_of_opened_between (offset : Nat) (between back : List Char) :
    closing ⟨offset, '\x7b' :: (between ++ '\x7b' :: back)⟩ ≠
      closing ⟨offset + 1 + byteLength between, '\x7b' :: back⟩ := by
  have hinner := le_closing (offset + 1 + byteLength between) back
  rcases closing_cases offset between back with hlt | houter | ⟨body, later, rfl, houter⟩
  · exact Nat.ne_of_gt hlt
  · omega
  · -- the outer brace is closed before the inner one is opened
    have hsize := Char.utf8Size_pos '\x7d'
    rw [Text.byteLength_append, Text.byteLength_cons] at hinner
    rw [houter, Text.byteLength_append, Text.byteLength_cons]
    omega

/-! ## The first block behind a place -/

theorem openFrom_append {front : List Char} (h : '\x7b' ∉ front) (offset : Nat) (back : List Char) :
    openFrom offset (front ++ '\x7b' :: back) =
      some ⟨offset + byteLength front, '\x7b' :: back⟩ := by
  induction front generalizing offset with
  | nil => simp [openFrom, byteLength]
  | cons c front ih =>
    rw [List.mem_cons, not_or] at h
    rw [List.cons_append, openFrom, if_neg (Ne.symm h.1), ih h.2, Text.byteLength_cons,
      Nat.add_assoc]

/-- The block behind a place ends with the block that a given brace opens exactly if no brace is
opened between the two. -/
theorem exists_blockSpan (front between back : List Char) :
    ∃ span, blockSpan (front ++ (between ++ '\x7b' :: back)) (byteLength front) = some span ∧
      span.first = byteLength front ∧
      (Ends (byteLength (front ++ between)) back span.last ↔ '\x7b' ∉ between) := by
  rw [blockSpan, Cursor.seek_append, Option.bind_some, spanAt]
  by_cases hmem : '\x7b' ∈ between
  · -- the first brace in between opens the block that is found
    obtain ⟨first, later, rfl, hfirst⟩ := List.eq_append_cons_of_mem hmem
    rw [List.append_assoc, List.cons_append, openFrom_append hfirst]
    refine ⟨_, rfl, rfl, iff_of_false ?_ fun hnot => hnot hmem⟩
    have hoffset : byteLength (front ++ (first ++ '\x7b' :: later)) =
        byteLength front + byteLength first + 1 + byteLength later := by
      have hbrace : ('\x7b').utf8Size = 1 := rfl
      rw [Text.byteLength_append, Text.byteLength_append, Text.byteLength_cons, hbrace]
      omega
    rw [ends_iff, hoffset]
    exact closing_ne_of_opened_between _ _ _
  · rw [openFrom_append hmem, Text.byteLength_append]
    exact ⟨_, rfl, rfl, iff_of_true ((ends_iff _ _ _).2 rfl) hmem⟩

end CodeSurvey.Brace
