import CodeSurvey.Project.Basic
import CodeSurvey.Proofs.BlockBodies
import CodeSurvey.Proofs.LineBreakMatches
import CodeSurvey.Proofs.ListLemmas
import CodeSurvey.Proofs.ScopeResolution

/-!
# Extraction and line breaks

What is read from a source text does not depend on whether its lines end with a line feed or with a
carriage return and a line feed. Blocks move with their headers and keep their normal forms, and
what lies in a block still lies in it.

## Key results

- `Block.forall₂_extract_crlf`: the blocks of both texts, one by one
- `Scope.resolve_crlf`: the same blocks lie around a place
- `Extraction.ofText_crlf`: what is read from both texts
-/

namespace CodeSurvey

open Text (Cursor byteLength crlf crlfFrom breakWidth IsMoved)

namespace Block

/-- A block of a text, and the block of the text with carriage returns that goes from the same
character to the same character. -/
structure Moves (text : List Char) (block moved : Block) : Prop where
  name : moved.name = block.name
  kind : moved.kind = block.kind
  normalText : moved.normalText = block.normalText
  first : IsMoved text block.span.first moved.span.first
  last : IsMoved text block.span.last moved.span.last

variable {text : List Char}

/-- The block that a header opens in either text. -/
theorem exists_moves (limit : Nat) (kind : BlockKind) {header moved : Match}
    (h : Match.Moves text header moved) {block : Block}
    (hblock : ((Cursor.seek text header.start).bind fun place =>
      (Brace.blockSpan text header.start).bind (ofHeader limit kind header place)) = some block) :
    ∃ other, ((Cursor.seek (crlf text) moved.start).bind fun place =>
        (Brace.blockSpan (crlf text) moved.start).bind (ofHeader limit kind moved place)) =
          some other ∧ Moves text block other := by
  obtain ⟨⟨front, rest, rfl, hstart, hmoved⟩, hgroup⟩ := h
  have hplace := Cursor.seek_append front rest
  have hplace' := Cursor.seek_crlf front rest
  rw [Brace.blockSpan, hstart, hplace, Option.bind_some, Option.bind_some,
    Option.bind_eq_some_iff] at hblock
  obtain ⟨span, hspan, hblock⟩ := hblock
  -- a brace opens the block, and the same brace closes it in both texts
  obtain ⟨opening, hopening, -⟩ := Option.map_eq_some_iff.1 hspan
  obtain ⟨inner, d, back, rfl, hbreak, hsize, hspans, hspans'⟩ :=
    Brace.exists_spanAt_crlfFrom (Brace.mem_of_openFrom hopening)
  obtain rfl := Option.some.inj ((hspans _).symm.trans hspan)
  obtain ⟨name, hname, rfl⟩ := Option.map_eq_some_iff.1 hblock
  rw [Brace.blockSpan, hmoved, hplace', Option.bind_some, Option.bind_some, hspans',
    Option.bind_some, ofHeader, hgroup, hname]
  refine ⟨_, rfl, rfl, rfl, ?_, ⟨front, _, rfl, rfl, rfl⟩,
    Text.isMoved_append front inner hbreak back⟩
  exact congrArg String.ofList (Text.normalUpTo_crlfFrom limit _ _ inner hbreak hsize back)

theorem startsAlike_header (kind : BlockKind) : kind.header.StartsAlike := by
  cases kind with
  | function => exact Pattern.startsAlike_of_seam? (by decide +kernel)
  | method => exact Pattern.startsAlike_methodHeader
  | classBody => exact Pattern.startsAlike_of_seam? (by decide +kernel)

theorem keepsNo_header (kind : BlockKind) : kind.header.keepsNo '\n' = true := by
  cases kind <;> decide +kernel

/-- The blocks of one kind, in both texts. -/
theorem forall₂_ofKind_crlf (limit : Nat) (text : List Char) (kind : BlockKind) :
    List.Forall₂ (Moves text) (ofKind limit text kind) (ofKind limit (crlf text) kind) := by
  have hmatches := Pattern.forall₂_findAll_crlf (startsAlike_header kind) (keepsNo_header kind) text
  have hblocks := exists_ofHeader limit text kind
  rw [ofKind_eq_filterMap, ofKind_eq_filterMap]
  generalize kind.header.findAll text = headers at hmatches hblocks
  generalize kind.header.findAll (crlf text) = moved at hmatches
  -- header by header: each gives a block in both texts
  induction hmatches with
  | nil => exact .nil
  | @cons header other headers others hmoves _ ih =>
    obtain ⟨block, hblock, -⟩ := hblocks header List.mem_cons_self
    obtain ⟨block', hblock', hmoved⟩ := exists_moves limit kind hmoves hblock
    rw [List.filterMap_cons, List.filterMap_cons, hblock, hblock']
    exact .cons hmoved (ih fun later hlater => hblocks later (List.mem_cons_of_mem header hlater))

/-- The blocks of both texts, one by one. -/
theorem forall₂_extract_crlf (limit : Nat) (text : List Char) :
    List.Forall₂ (Moves text) (extract limit text) (extract limit (crlf text)) := by
  unfold extract
  induction BlockKind.all with
  | nil => exact .nil
  | cons kind rest ih =>
    rw [List.flatMap_cons, List.flatMap_cons]
    exact List.rel_append (forall₂_ofKind_crlf limit text kind) ih

end Block

namespace Scope

variable {blocks others : List Block} {text : List Char}

/-- The same blocks lie around a place in both texts. -/
theorem resolve_crlf (h : List.Forall₂ (Block.Moves text) blocks others) {offset moved : Nat}
    (hoffset : IsMoved text offset moved) : resolve others moved = resolve blocks offset := by
  refine resolve_congr fun kind => ?_
  constructor
  -- a place lies between the ends of a block if it moves to one between their new places
  · rintro ⟨other, hother, rfl, hfirst, hlast⟩
    obtain ⟨block, hblock, hmoves⟩ := List.exists_of_mem_of_forall₂ h hother
    exact ⟨block, hblock, hmoves.kind.symm, (hmoves.first.le_iff hoffset).2 hfirst,
      (hoffset.le_iff hmoves.last).2 hlast⟩
  · rintro ⟨block, hblock, rfl, hfirst, hlast⟩
    obtain ⟨other, hother, hmoves⟩ := List.exists_of_mem_of_forall₂ h.flip hblock
    exact ⟨other, hother, hmoves.kind, (hmoves.first.le_iff hoffset).1 hfirst,
      (hoffset.le_iff hmoves.last).1 hlast⟩

end Scope

namespace Extraction

/-- Two extractions say the same, wherever in their texts they found it. -/
structure SaysSame (extraction other : Extraction) : Prop where
  blocks : extraction.blocks.map (fun block =>
      (block.kind, block.name, block.normalText, block.digest)) =
    other.blocks.map fun block => (block.kind, block.name, block.normalText, block.digest)
  declarations : extraction.declarations.map (fun found => (found.name, found.scope)) =
    other.declarations.map fun found => (found.name, found.scope)
  functions : extraction.functions = other.functions
  classes : extraction.classes = other.classes
  methods : extraction.methods = other.methods

/-- The variables of both texts have the same names and scopes. -/
theorem map_declarations_crlf (text : List Char) {blocks others : List Block}
    (h : List.Forall₂ (Block.Moves text) blocks others) :
    (ScopedVariable.extract (crlf text) others).map (fun found => (found.name, found.scope)) =
      (ScopedVariable.extract text blocks).map fun found => (found.name, found.scope) := by
  have hstarts : Pattern.variableDeclaration.StartsAlike :=
    Pattern.startsAlike_of_seam? (by decide +kernel)
  have hmatches := Pattern.forall₂_findAll_crlf hstarts (by decide +kernel) text
  rw [ScopedVariable.extract_eq_filterMap, ScopedVariable.extract_eq_filterMap, List.map_filterMap,
    List.map_filterMap]
  apply List.filterMap_eq_of_forall₂ hmatches
  intro declaration moved hmoves
  have hscope := Scope.resolve_crlf h hmoves.start
  rw [hmoves.group, Option.map_map, Option.map_map]
  congr 1
  funext name
  show (name, Scope.resolve others moved.start) = (name, Scope.resolve blocks declaration.start)
  rw [hscope]

/-- What is read from a text does not depend on whether a carriage return stands before every line
feed. -/
theorem ofText_crlf (limit : Nat) (source : String) :
    (ofText limit (String.ofList (crlf source.toList))).SaysSame (ofText limit source) := by
  have htext : (String.ofList (crlf source.toList)).toList = crlf source.toList :=
    String.toList_ofList
  have hblocks := Block.forall₂_extract_crlf limit source.toList
  refine ⟨?_, ?_, ?_, ?_, ?_⟩ <;> unfold ofText <;> rw [htext]
  · show List.map _ (Block.extract limit _) = List.map _ (Block.extract limit _)
    rw [← List.filterMap_eq_map]
    apply List.filterMap_eq_of_forall₂ hblocks
    intro block moved hmoves
    simp only [Function.comp_apply, Block.digest, hmoves.kind, hmoves.name, hmoves.normalText]
  · exact map_declarations_crlf _ hblocks
  · apply Pattern.groups_crlf (Pattern.startsAlike_of_seam? _) _ <;> decide +kernel
  · apply Pattern.groups_crlf (Pattern.startsAlike_of_seam? _) _ <;> decide +kernel
  · exact Pattern.groups_crlf (Block.startsAlike_header .method) (Block.keepsNo_header .method) _

end Extraction

end CodeSurvey
