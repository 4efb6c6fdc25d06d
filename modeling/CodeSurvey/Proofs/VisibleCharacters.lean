import CodeSurvey.Proofs.BlockShape
import CodeSurvey.Proofs.IdentifierSharing
import CodeSurvey.Proofs.NormalForms

/-!
# Visible characters

A normal form has the visible characters of the text without its comments, with double quotes for
single ones. Comments are found by their two slashes alone, also in a string: what stands behind the
slashes on that line is lost, code and all. So the visible characters of the whole text are kept
exactly if no two slashes stand side by side in it, and of two blocks without such slashes those
that show different characters have different normal forms.

## Key results

- `Text.visible_normal`: what can be seen in a normal form
- `Text.visible_normal_eq_iff`: when nothing is lost
- `Block.visible_eq_of_normalText_eq`: blocks with one text look alike
- `Block.visible_normal_iff_and_normalText_ne`: what normal forms keep, and the blocks that they
  tell apart
-/

namespace CodeSurvey

namespace Text

/-- The characters of a text that are not white space. -/
def visible (text : List Char) : List Char :=
  text.filter (!isBlank ·)

theorem visible_run {run : List Char} (hrun : ∀ c ∈ run, isBlank c = false) : visible run = run :=
  List.filter_eq_self.2 fun c hc => by simp [hrun c hc]

/-- What can be seen of a text is its words. -/
theorem visible_eq_flatten (text : List Char) : visible text = (words text).flatten := by
  induction text using run_induction with
  | run run hrun =>
    rw [visible_run hrun, words_run hrun]
    split <;> simp_all
  | gap run c rest hrun hc ih =>
    have hrest : visible (run ++ c :: rest) = visible run ++ visible rest := by
      rw [visible, List.filter_append, List.filter_cons_of_neg (by simp [hc])]
      rfl
    rw [hrest, words_append_cons hc, List.flatten_append, ← ih, visible_run hrun, words_run hrun]
    split <;> simp_all

/-- What can be seen in a normal form is what can be seen without the comments. -/
theorem visible_normal (text : List Char) :
    visible (normal text) = visible ((dropComments text).map doubleQuote) := by
  rw [visible_eq_flatten, words_normal, visible_eq_flatten]
  rfl

theorem count_slash_visible_map (text : List Char) :
    (visible (text.map doubleQuote)).count '/' = text.count '/' := by
  have hslash : ∀ c, (doubleQuote c == '/') = (c == '/') := fun c => by
    rw [Bool.eq_iff_iff, beq_iff_eq, beq_iff_eq, doubleQuote_eq_slash_iff]
  rw [visible, List.count_filter (by decide), List.count, List.countP_map]
  exact List.countP_congr fun c _ => by rw [Function.comp_apply, hslash]

/-- Comments take slashes away. -/
theorem Uncomments.count_slash_le {text kept : List Char} (h : Uncomments text kept) :
    kept.count '/' ≤ text.count '/' := by
  induction h with
  | nil => exact Nat.le_refl _
  | code _ _ ih =>
    rw [List.count_cons, List.count_cons]
    omega
  | comment _ _ _ ih =>
    rw [List.count_cons_self, List.count_cons_self, List.count_append]
    omega

theorem Uncomments.count_slash_lt {text kept : List Char} (h : Uncomments text kept)
    (hslashes : ['/', '/'] <:+: text) : kept.count '/' < text.count '/' := by
  induction h with
  | nil => simp at hslashes
  | code hcode _ ih =>
    have hlt := ih ((List.infix_cons_iff.1 hslashes).resolve_left hcode)
    rw [List.count_cons, List.count_cons]
    omega
  | comment _ _ hrest _ =>
    have hle := hrest.count_slash_le
    rw [List.count_cons_self, List.count_cons_self, List.count_append]
    omega

/-- Nothing that can be seen is lost exactly if no two slashes stand side by side. -/
theorem visible_normal_eq_iff (text : List Char) :
    visible (normal text) = visible (text.map doubleQuote) ↔ ¬ ['/', '/'] <:+: text := by
  rw [visible_normal]
  constructor
  · intro h hslashes
    -- a comment takes its two slashes away
    have hlt := (uncomments_dropComments text).count_slash_lt hslashes
    rw [← count_slash_visible_map, h, count_slash_visible_map] at hlt
    exact Nat.lt_irrefl _ hlt
  · intro h
    rw [dropComments_eq_self h]

/-- Two slashes stand side by side in string literals only. A literal stands between two equal
quotes on one line, with neither this quote nor a backslash between them. -/
inductive SlashesQuoted : (text : List Char) → Prop where
  | nil : SlashesQuoted []
  | code {c : Char} {rest : List Char} (hc : Pattern.isQuote c = false)
      (hcode : ¬ ['/', '/'] <+: c :: rest) (h : SlashesQuoted rest) : SlashesQuoted (c :: rest)
  | literal {quote : Char} {content rest : List Char} (hquote : Pattern.isQuote quote = true)
      (hcontent : ∀ c ∈ content, c ≠ quote ∧ c ≠ '\\' ∧ endsLine c = false)
      (h : SlashesQuoted rest) : SlashesQuoted (quote :: (content ++ quote :: rest))

theorem SlashesQuoted.append {front rest : List Char}
    (hfront : (front.all fun c => !Pattern.isQuote c && c != '/') = true)
    (h : SlashesQuoted rest) : SlashesQuoted (front ++ rest) := by
  induction front with
  | nil => exact h
  | cons c front ih =>
    simp only [List.all_cons, Bool.and_eq_true, Bool.not_eq_true', bne_iff_ne] at hfront
    obtain ⟨⟨hquote, hslash⟩, hfront⟩ := hfront
    refine .code hquote (fun hprefix => ?_) (ih hfront)
    exact hslash (List.cons_prefix_cons.1 hprefix).1.symm

end Text

namespace Block

open Text (byteLength visible normal doubleQuote codeWords)

/-- A block of a text is made of these characters. -/
def Spells (text : List Char) (block : Block) (body : List Char) : Prop :=
  ∃ front back, text = front ++ (body ++ back) ∧ block.span.first = byteLength front ∧
    block.span.last + 1 = byteLength (front ++ body)

/-- The text of a block is the start of the normal form of its characters. -/
theorem normalText_of_spells {limit : Nat} {text : List Char} {block : Block} {body : List Char}
    (hblock : block ∈ extract limit text) (h : block.Spells text body) :
    block.normalText.toList = (normal body).take limit := by
  obtain ⟨header, -, hshaped⟩ := List.exists_of_mem_of_forall₂
    (forall₂_isShaped_ofKind limit text block.kind) (mem_ofKind_iff.2 ⟨hblock, rfl⟩)
  obtain ⟨front, body', back, htext, hfirst, hlast, hnormal⟩ := hshaped.normalText
  obtain ⟨front', back', htext', hfirst', hlast'⟩ := h
  -- the block is cut out of the text in one way only
  obtain ⟨rfl, hrest⟩ := Text.eq_of_append_eq_append (htext.symm.trans htext')
    (hfirst.symm.trans hfirst')
  obtain ⟨rfl, -⟩ := Text.eq_of_append_eq_append hrest (by
    rw [hlast, Text.byteLength_append, Text.byteLength_append] at hlast'
    omega)
  rw [hnormal, ← List.take_eq_take_min]

section Pair

variable {limit : Nat} {text other : List Char} {block block' : Block} {body body' : List Char}
variable (hblock : block ∈ extract limit text) (hspells : block.Spells text body)
variable (hblock' : block' ∈ extract limit other) (hspells' : block'.Spells other body')
variable (hfits : (normal body).length ≤ limit) (hfits' : (normal body').length ≤ limit)

include hblock hspells hblock' hspells' hfits hfits'

/-- Blocks within the limit have one text exactly if the same words are left without their
comments. -/
theorem normalText_eq_iff :
    block.normalText = block'.normalText ↔ codeWords body = codeWords body' := by
  rw [← String.toList_inj, normalText_of_spells hblock hspells,
    normalText_of_spells hblock' hspells', List.take_of_length_le hfits,
    List.take_of_length_le hfits', Text.normal_eq_iff]

/-- Blocks with one text show the same characters, their comments apart. -/
theorem visible_eq_of_normalText_eq (h : block.normalText = block'.normalText) :
    visible ((Text.dropComments body).map doubleQuote) =
      visible ((Text.dropComments body').map doubleQuote) := by
  rw [normalText_eq_iff hblock hspells hblock' hspells' hfits hfits'] at h
  rw [Text.visible_eq_flatten, Text.visible_eq_flatten]
  exact congrArg List.flatten h

/-- Blocks without slashes side by side that show different characters have different texts. -/
theorem normalText_ne_of_visible_ne (hcode : ¬ ['/', '/'] <:+: body)
    (hcode' : ¬ ['/', '/'] <:+: body')
    (hvisible : visible (body.map doubleQuote) ≠ visible (body'.map doubleQuote)) :
    block.normalText ≠ block'.normalText := by
  intro htext
  have hsame := visible_eq_of_normalText_eq hblock hspells hblock' hspells' hfits hfits' htext
  rw [Text.dropComments_eq_self hcode, Text.dropComments_eq_self hcode'] at hsame
  exact hvisible hsame

end Pair

/-- A normal form keeps what can be seen of a text without its comments, and all of the text exactly
if no two slashes stand side by side in it, be it in a string. Blocks within the limit whose texts
are one show the same characters, their comments apart; those without slashes side by side that show
different characters have different texts, and digests that differ unless these collide. -/
theorem visible_normal_iff_and_normalText_ne (limit : Nat) (source other : String) :
    (∀ text : List Char,
      visible (normal text) = visible ((Text.dropComments text).map doubleQuote) ∧
        (visible (normal text) = visible (text.map doubleQuote) ↔ ¬ ['/', '/'] <:+: text)) ∧
    ∀ block ∈ (Extraction.ofText limit source).blocks,
    ∀ block' ∈ (Extraction.ofText limit other).blocks, ∀ body body' : List Char,
      block.Spells source.toList body → block'.Spells other.toList body' →
      (normal body).length ≤ limit → (normal body').length ≤ limit →
        (block.normalText = block'.normalText →
          visible ((Text.dropComments body).map doubleQuote) =
            visible ((Text.dropComments body').map doubleQuote)) ∧
        (¬ ['/', '/'] <:+: body → ¬ ['/', '/'] <:+: body' →
          visible (body.map doubleQuote) ≠ visible (body'.map doubleQuote) →
            block.normalText ≠ block'.normalText ∧
              (TextDigestsDiffer [block.normalText, block'.normalText] →
                block.digest ≠ block'.digest)) := by
  refine ⟨fun text => ⟨Text.visible_normal text, Text.visible_normal_eq_iff text⟩, ?_⟩
  intro block hblock block' hblock' body body' hspells hspells' hfits hfits'
  refine ⟨visible_eq_of_normalText_eq hblock hspells hblock' hspells' hfits hfits', ?_⟩
  intro hcode hcode' hvisible
  have hne := normalText_ne_of_visible_ne hblock hspells hblock' hspells' hfits hfits' hcode hcode'
    hvisible
  refine ⟨hne, fun hdigests hdigest => hne ?_⟩
  exact hdigests _ List.mem_cons_self _ (List.mem_cons_of_mem _ List.mem_cons_self) hdigest

/-- Two functions that give different answers have different texts. -/
theorem normalText_ne_of_answers :
    ∃ block ∈ (Extraction.ofText 100 "function f() \x7breturn 1\x7d").blocks,
    ∃ block' ∈ (Extraction.ofText 100 "function f() \x7breturn 2\x7d").blocks,
      block.normalText ≠ block'.normalText := by
  have hblock : ⟨"f", .function, "function f() \x7breturn 1\x7d", ⟨0, 22⟩⟩ ∈
    (Extraction.ofText 100 "function f() \x7breturn 1\x7d").blocks := by decide +kernel
  have hblock' : ⟨"f", .function, "function f() \x7breturn 2\x7d", ⟨0, 22⟩⟩ ∈
    (Extraction.ofText 100 "function f() \x7breturn 2\x7d").blocks := by decide +kernel
  refine ⟨_, hblock, _, hblock', ?_⟩
  have hne := (visible_normal_iff_and_normalText_ne 100 _ _).2 _ hblock _ hblock'
    "function f() \x7breturn 1\x7d".toList "function f() \x7breturn 2\x7d".toList
    ⟨[], [], by simp, rfl, rfl⟩ ⟨[], [], by simp, rfl, rfl⟩
    (by decide +kernel) (by decide +kernel)
  exact (hne.2 (by decide +kernel) (by decide +kernel) (by decide +kernel)).1

/-- Of an address in a string the normal form keeps nothing behind the slashes, so two functions
that ask different addresses have one text. -/
theorem normalText_eq_of_addresses :
    ∃ block ∈ (Extraction.ofText 10000 "function f() \x7bget(\x27http://a\x27);\n\x7d").blocks,
    ∃ block' ∈ (Extraction.ofText 10000 "function f() \x7bget(\x27http://b\x27);\n\x7d").blocks,
    ∃ body body' : List Char, Text.SlashesQuoted body ∧ Text.SlashesQuoted body' ∧
      block.Spells "function f() \x7bget(\x27http://a\x27);\n\x7d".toList body ∧
      block'.Spells "function f() \x7bget(\x27http://b\x27);\n\x7d".toList body' ∧
      (normal body).length ≤ 10000 ∧ (normal body').length ≤ 10000 ∧
      visible (normal body) ≠ visible (body.map doubleQuote) ∧
      visible (body.map doubleQuote) ≠ visible (body'.map doubleQuote) ∧
      block.normalText = block'.normalText := by
  have hquoted : ∀ letter, Pattern.isQuote letter = false → letter ≠ '\\' →
      Text.endsLine letter = false → Text.SlashesQuoted ("function f() \x7bget(".toList ++
        '\x27' :: (['h', 't', 't', 'p', ':', '/', '/', letter] ++
          '\x27' :: (");\n\x7d".toList ++ []))) := by
    intro letter hquote hescape hbreak
    have hletter : letter ≠ '\x27' := fun h => by simp [h, Pattern.isQuote] at hquote
    refine .append (by decide) (.literal rfl ?_ (.append (by decide) .nil))
    simpa [hletter, hescape, Text.endsLine] using hbreak
  refine ⟨⟨"f", .function, "function f() \x7bget(\"http: \x7d", ⟨0, 31⟩⟩, by decide +kernel,
    ⟨"f", .function, "function f() \x7bget(\"http: \x7d", ⟨0, 31⟩⟩, by decide +kernel,
    _, _, hquoted 'a' rfl (by decide) rfl, hquoted 'b' rfl (by decide) rfl,
    ⟨[], [], rfl, rfl, rfl⟩, ⟨[], [], rfl, rfl, rfl⟩, ?_⟩
  decide +kernel

end Block

end CodeSurvey
