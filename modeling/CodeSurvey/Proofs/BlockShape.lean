import CodeSurvey.Proofs.BlockNesting
import CodeSurvey.Proofs.HeaderParts
import CodeSurvey.Proofs.ListLemmas
import CodeSurvey.Extraction

/-!
# The shape of blocks

Every header that is found in a text gives one block of its kind, which starts where the header does
and has its name. The block ends on a brace behind its start, so both its ends lie between
characters of the text, and its text is the normal form of what stands between them.

## Key results

- `BlockKind.exists_keepsName_of_header`: a header keeps a name, and no brace stands at its start
- `Block.isShaped_of_ofHeader`: what the block of a header is
- `Block.map_name_ofKind`: blocks have the names that their headers keep
- `Extraction.forall₂_isShaped_blocks`: the blocks of a text, one for each header
-/

namespace CodeSurvey

open Text (Cursor byteLength)

/-- A header keeps a name, and does not start with a brace. -/
theorem BlockKind.exists_keepsName_of_header {kind : BlockKind} {stretch : List Char}
    {kept : Option (Nat × Nat)} (h : kind.header.Describes stretch kept) :
    ∃ c lead name trail, Pattern.KeepsName stretch kept (c :: lead) name trail ∧ c ≠ '\x7b' := by
  cases kind with
  | function =>
    obtain ⟨space, name, trail, -, -, hkeeps⟩ := Pattern.exists_parts_of_functionHeader h
    exact ⟨'f', _, name, trail, hkeeps, by decide⟩
  | method =>
    obtain ⟨indent, name, trail, -, -, hkeeps⟩ := Pattern.describes_methodHeader_iff.1 h
    exact ⟨'\n', _, name, trail, hkeeps, by decide⟩
  | classBody =>
    obtain ⟨space, name, trail, -, -, hkeeps⟩ := Pattern.exists_parts_of_classHeader h
    exact ⟨'c', _, name, trail, hkeeps, by decide⟩

namespace Block

/-- What a block of a text is to the header that opens it. -/
structure IsShaped (limit : Nat) (text : List Char) (kind : BlockKind) (header : Match)
    (block : Block) : Prop where
  kind_eq : block.kind = kind
  group_eq : header.group = some block.name
  isName : Pattern.IsName block.name.toList
  first_eq : block.span.first = header.start
  first_lt_last : block.span.first < block.span.last
  last_lt : block.span.last < byteLength text
  /-- The block ends where the first brace behind its start is closed. -/
  ends : ∃ front lead back, text = front ++ (lead ++ '\x7b' :: back) ∧ '\x7b' ∉ lead ∧
    block.span.first = byteLength front ∧
    Brace.Ends (byteLength (front ++ lead)) back block.span.last
  /-- Its text is the start of the normal form of the characters from its first byte to its last. -/
  normalText : ∃ front body back, text = front ++ (body ++ back) ∧
    block.span.first = byteLength front ∧ block.span.last + 1 = byteLength (front ++ body) ∧
    block.normalText.toList = (Text.normal body).take (min limit (Text.normal body).length)

/-- A block ends with a character. -/
theorem exists_within_of_ends {opening last : Nat} {back : List Char}
    (h : Brace.Ends opening back last) :
    ∃ within beyond, '\x7b' :: back = within ++ beyond ∧
      last + 1 = opening + byteLength within := by
  have hopen : Char.utf8Size '\x7b' = 1 := rfl
  cases h with
  | closed body beyond _ _ =>
    have hclose : byteLength (body ++ ['\x7d']) = byteLength body + 1 := Text.byteLength_append _ _
    refine ⟨'\x7b' :: (body ++ ['\x7d']), beyond, by simp, ?_⟩
    rw [Text.byteLength_cons, hclose, hopen]
    omega
  | unclosed => exact ⟨['\x7b'], back, rfl, rfl⟩

/-- In front of the first brace behind the start of a header stands something. -/
theorem lead_ne_nil {text : List Char} {kind : BlockKind} {header : Match} {block : Block}
    {front lead back : List Char} (hheader : header ∈ kind.header.findAll text)
    (h : HasLead text header block front lead back) : lead ≠ [] := by
  obtain ⟨front', stretch, beyond, kept, htext, hdescribes, hstart, -, -⟩ :=
    Pattern.exists_describes_of_mem_findAll hheader
  obtain ⟨c, lead', name, trail, hkeeps, hc⟩ := BlockKind.exists_keepsName_of_header hdescribes
  obtain ⟨-, hrest⟩ := Text.eq_of_append_eq_append (h.text_eq.symm.trans htext)
    (h.start_eq.symm.trans hstart)
  rintro rfl
  rw [hkeeps.stretch_eq] at hrest
  exact hc (List.cons.inj hrest).1.symm

/-- A header keeps the name of its block. -/
theorem exists_name_of_mem_findAll {text : List Char} {kind : BlockKind} {header : Match}
    (h : header ∈ kind.header.findAll text) :
    ∃ name, Pattern.IsName name ∧ header.group = some (String.ofList name) := by
  obtain ⟨front, stretch, beyond, kept, -, hdescribes, -, -, hgroup⟩ :=
    Pattern.exists_describes_of_mem_findAll h
  obtain ⟨c, lead, name, trail, hkeeps, -⟩ := BlockKind.exists_keepsName_of_header hdescribes
  exact ⟨name, hkeeps.isName, hgroup.trans hkeeps.group_eq⟩

/-- The block that a header opens. -/
theorem isShaped_of_ofHeader {limit : Nat} {text : List Char} {kind : BlockKind} {header : Match}
    {block : Block} (hheader : header ∈ kind.header.findAll text)
    (hblock : ((Cursor.seek text header.start).bind fun place =>
      (Brace.blockSpan text header.start).bind (ofHeader limit kind header place)) = some block) :
    IsShaped limit text kind header block := by
  obtain ⟨front, lead, back, hlead, -⟩ := exists_lead_of_ofHeader hheader hblock
  have hne := lead_ne_nil hheader hlead
  have hends := (Brace.ends_iff _ _ _).2 hlead.last_eq
  obtain ⟨within, beyond, hwithin, hlast⟩ := exists_within_of_ends hends
  obtain ⟨name, hisName, hgroup⟩ := exists_name_of_mem_findAll hheader
  -- the block is that of the text from its first byte to its last
  have htext : text = front ++ ((lead ++ within) ++ beyond) := by
    rw [hlead.text_eq, hwithin, List.append_assoc]
  have hlength : block.span.last + 1 = byteLength front + byteLength (lead ++ within) := by
    rw [hlast, Text.byteLength_append, Text.byteLength_append, Nat.add_assoc]
  simp only [Option.bind_eq_some_iff] at hblock
  obtain ⟨place, hplace, span, -, hblock⟩ := hblock
  have hnormal := normalText_of_ofHeader hblock
  rw [htext, hlead.start_eq, Cursor.seek_append, Option.some.injEq] at hplace
  rw [← hplace, Cursor.upTo, hlength, Cursor.takeFrom_append] at hnormal
  obtain ⟨blockName, hblockName, rfl⟩ := Option.map_eq_some_iff.1 hblock
  obtain rfl := Option.some.inj (hblockName.symm.trans hgroup)
  refine ⟨rfl, hgroup, ?_, ?_, ?_, ?_, ?_, ?_⟩
  · rwa [String.toList_ofList]
  · exact hlead.first_eq.trans hlead.start_eq.symm
  · have hpos : byteLength lead ≠ 0 := fun h => hne (Text.eq_nil_of_byteLength_eq_zero h)
    have hle := Brace.le_closing (byteLength (front ++ lead)) back
    rw [hlead.first_eq, hlead.last_eq]
    rw [Text.byteLength_append] at hle ⊢
    omega
  · rw [htext, Text.byteLength_append, Text.byteLength_append _ beyond]
    omega
  · exact ⟨front, lead, back, hlead.text_eq, hlead.not_mem, hlead.first_eq, hends⟩
  · refine ⟨front, lead ++ within, beyond, htext, hlead.first_eq, ?_, ?_⟩
    · rw [hlength, Text.byteLength_append front]
    · rw [hnormal, String.toList_ofList, Text.truncate, List.take_eq_take_min]

/-- The blocks of one kind come one for each header, in order. -/
theorem forall₂_isShaped_ofKind (limit : Nat) (text : List Char) (kind : BlockKind) :
    List.Forall₂ (IsShaped limit text kind) (kind.header.findAll text)
      (ofKind limit text kind) := by
  rw [ofKind_eq_filterMap]
  refine List.forall₂_filterMap_of_exists fun header hheader => ?_
  obtain ⟨block, hblock, -⟩ := exists_ofHeader limit text kind header hheader
  exact ⟨block, hblock, isShaped_of_ofHeader hheader hblock⟩

/-- Blocks have the names that their headers keep, in order. -/
theorem map_name_ofKind (limit : Nat) (text : List Char) (kind : BlockKind) :
    (ofKind limit text kind).map name = kind.header.groups text := by
  rw [← List.filterMap_eq_map]
  exact List.filterMap_eq_of_forall₂ (forall₂_isShaped_ofKind limit text kind)
    fun header block hshaped => hshaped.group_eq.symm

/-- The blocks of one kind are those that are listed with it. -/
theorem mem_ofKind_iff {limit : Nat} {text : List Char} {kind : BlockKind} {block : Block} :
    block ∈ ofKind limit text kind ↔ block ∈ extract limit text ∧ block.kind = kind := by
  rw [← filter_kind_extract, List.mem_filter, beq_iff_eq]

/-- The blocks of one kind come in the order of their starts. -/
theorem pairwise_first_lt_ofKind (limit : Nat) (text : List Char) (kind : BlockKind) :
    (ofKind limit text kind).Pairwise fun block later => block.span.first < later.span.first := by
  rw [ofKind_eq_filterMap, List.pairwise_filterMap]
  refine (Pattern.pairwise_findAll kind.header text).imp_of_mem
    fun {header other} hheader hother hle block hblock later hlater => ?_
  obtain ⟨front, lead, back, hblock, -⟩ := exists_lead_of_ofHeader hheader hblock
  obtain ⟨front', lead', back', hlater, -⟩ := exists_lead_of_ofHeader hother hlater
  -- the header holds the brace that opens its block, so the later one starts behind this brace
  exact first_lt_first hblock hlater hle

end Block

namespace Extraction

/-- The methods of a text are the names of its blocks that are methods. -/
theorem mem_methods_iff (limit : Nat) (source name : String) :
    name ∈ (ofText limit source).methods ↔
      ∃ block ∈ (ofText limit source).blocks, block.kind = .method ∧ block.name = name := by
  show name ∈ BlockKind.method.header.groups source.toList ↔ _
  rw [← Block.map_name_ofKind limit, List.mem_map]
  constructor
  · rintro ⟨block, hblock, hname⟩
    obtain ⟨hmem, hkind⟩ := Block.mem_ofKind_iff.1 hblock
    exact ⟨block, hmem, hkind, hname⟩
  · rintro ⟨block, hmem, hkind, hname⟩
    exact ⟨block, Block.mem_ofKind_iff.2 ⟨hmem, hkind⟩, hname⟩

/-- Every header that is found in a text opens one block, and these are the blocks of the text, kind
by kind in the order of their starts. The names of the methods are those of the blocks. -/
theorem forall₂_isShaped_blocks (limit : Nat) (source : String) :
    (∀ kind : BlockKind,
      List.Forall₂ (Block.IsShaped limit source.toList kind) (kind.header.findAll source.toList)
        ((ofText limit source).blocks.filter fun block => block.kind == kind) ∧
      ((ofText limit source).blocks.filter fun block => block.kind == kind).Pairwise
        fun block later => block.span.first < later.span.first) ∧
    (((ofText limit source).blocks.filter fun block => block.kind == .method).map Block.name =
      (ofText limit source).methods) := by
  have hblocks : ∀ kind, ((ofText limit source).blocks.filter fun block => block.kind == kind) =
      Block.ofKind limit source.toList kind :=
    Block.filter_kind_extract limit source.toList
  simp only [hblocks]
  exact ⟨fun kind => ⟨Block.forall₂_isShaped_ofKind limit source.toList kind,
    Block.pairwise_first_lt_ofKind limit source.toList kind⟩,
    Block.map_name_ofKind limit source.toList .method⟩

end Extraction

end CodeSurvey
