import CodeSurvey.Proofs.BlockShape
import CodeSurvey.Proofs.PatternSearch

/-!
# Scopes by kind

The scope of a place is decided by the kinds of the blocks around it alone: that of a method if one
of them is a method, else that of a function, else that of a class. How wide the blocks are and in
which order they are listed decides which block gives the scope, but not which scope it gives.

## Key results

- `Scope.resolve_eq_ofKind_iff` / `Scope.resolve_eq_global_iff`: when a place has a scope
- `Scope.resolve_eq_ite`: the scope of a place
- `Scope.depth_resolve_mono`: more blocks lead further in
- `ScopedVariable.isDeclaredIn_of_mem_extract`: what stands at the offset of a variable
- `Extraction.declarations_scoped_by_kind`: the variables of a text and their scopes
-/

namespace CodeSurvey

open Text (byteLength)

theorem BlockKind.eq_of_priority_eq {kind other : BlockKind} (h : kind.priority = other.priority) :
    kind = other := by
  revert h
  cases kind <;> cases other <;> decide

namespace Scope

/-- A block of a kind lies around a byte offset. -/
def IsInside (blocks : List Block) (offset : Nat) (kind : BlockKind) : Prop :=
  ∃ block ∈ blocks, block.kind = kind ∧ block.span.first ≤ offset ∧ offset ≤ block.span.last

instance (blocks : List Block) (offset : Nat) (kind : BlockKind) :
    Decidable (IsInside blocks offset kind) :=
  inferInstanceAs (Decidable (∃ block ∈ blocks,
    block.kind = kind ∧ block.span.first ≤ offset ∧ offset ≤ block.span.last))

/-- How far in a scope is, from the global one to that of a method. -/
def depth (scope : Scope) : Nat :=
  all.idxOf scope

section Place

variable {blocks blocks' : List Block} {offset : Nat}

theorem isInside_iff {kind : BlockKind} :
    IsInside blocks offset kind ↔
      ∃ block ∈ blocks.filter (·.span.contains offset), block.kind = kind := by
  constructor
  · rintro ⟨block, hmem, hkind, hspan⟩
    exact ⟨block, List.mem_filter.2 ⟨hmem, (Span.contains_iff _ _).2 hspan⟩, hkind⟩
  · rintro ⟨block, hmem, hkind⟩
    obtain ⟨hmem, hcontains⟩ := List.mem_filter.1 hmem
    exact ⟨block, hmem, hkind, (Span.contains_iff _ _).1 hcontains⟩

theorem IsInside.mono {kind : BlockKind} (hsubset : blocks ⊆ blocks')
    (h : IsInside blocks offset kind) : IsInside blocks' offset kind := by
  obtain ⟨block, hmem, h⟩ := h
  exact ⟨block, hsubset hmem, h⟩

/-- A place outside all blocks is global. -/
theorem resolve_eq_global_iff :
    resolve blocks offset = global ↔ ∀ kind, ¬ IsInside blocks offset kind := by
  simp only [isInside_iff]
  rw [resolve, within]
  cases hdeciding : deciding (blocks.filter (·.span.contains offset)) with
  | none =>
    rw [deciding_eq_none_iff] at hdeciding
    simp [hdeciding]
  | some block =>
    have hmem := (priority_deciding_le hdeciding).1
    refine iff_of_false ?_ fun h => h block.kind ⟨block, hmem, rfl⟩
    cases hkind : block.kind <;> simp [hkind, ofKind]

/-- A place has the scope of a kind if a block of this kind and none of a smaller priority lies
around it. -/
theorem resolve_eq_ofKind {kind : BlockKind} (hinside : IsInside blocks offset kind)
    (hle : ∀ other, IsInside blocks offset other → kind.priority ≤ other.priority) :
    resolve blocks offset = ofKind kind := by
  simp only [isInside_iff] at hinside hle
  obtain ⟨block, hblock, rfl⟩ := hinside
  rw [resolve, within]
  cases hdeciding : deciding (blocks.filter (·.span.contains offset)) with
  | none =>
    rw [deciding_eq_none_iff] at hdeciding
    rw [hdeciding] at hblock
    cases hblock
  | some first =>
    -- the block that decides has the priority of the kind, so it is of the kind
    obtain ⟨hmem, hfirst⟩ := priority_deciding_le hdeciding
    have hpriority := Nat.le_antisymm (hfirst block hblock) (hle first.kind ⟨first, hmem, rfl⟩)
    exact congrArg ofKind (BlockKind.eq_of_priority_eq hpriority)

/-- The scope is that of a method around the place, failing that of a function, then of a class. -/
theorem resolve_eq_ite :
    resolve blocks offset =
      if IsInside blocks offset .method then method
      else if IsInside blocks offset .function then function
      else if IsInside blocks offset .classBody then classBody
      else global := by
  split
  · rename_i hmethod
    exact resolve_eq_ofKind hmethod fun other _ => Nat.zero_le _
  · rename_i hmethod
    split
    · rename_i hfunction
      refine resolve_eq_ofKind hfunction fun other hother => ?_
      cases other with
      | method => exact absurd hother hmethod
      | function => exact Nat.le_refl _
      | classBody => decide
    · rename_i hfunction
      split
      · rename_i hclass
        refine resolve_eq_ofKind hclass fun other hother => ?_
        cases other with
        | method => exact absurd hother hmethod
        | function => exact absurd hother hfunction
        | classBody => exact Nat.le_refl _
      · rename_i hclass
        rw [resolve_eq_global_iff]
        intro kind hkind
        cases kind with
        | method => exact hmethod hkind
        | function => exact hfunction hkind
        | classBody => exact hclass hkind

/-- Blocks of the same kinds around a place give it one scope. -/
theorem resolve_congr {offset' : Nat}
    (h : ∀ kind, IsInside blocks offset kind ↔ IsInside blocks' offset' kind) :
    resolve blocks offset = resolve blocks' offset' := by
  simp only [resolve_eq_ite, h]

/-- The order of the blocks does not matter. -/
theorem resolve_perm (h : blocks.Perm blocks') : resolve blocks offset = resolve blocks' offset :=
  resolve_congr fun _ => ⟨IsInside.mono h.subset, IsInside.mono h.symm.subset⟩

/-- Blocks that end before they start do not matter. -/
theorem resolve_filter :
    resolve (blocks.filter fun block => block.span.first ≤ block.span.last) offset =
      resolve blocks offset := by
  refine resolve_congr fun kind => ⟨IsInside.mono (List.filter_subset_self _), ?_⟩
  rintro ⟨block, hmem, hkind, hfirst, hlast⟩
  exact ⟨block, List.mem_filter.2 ⟨hmem, decide_eq_true (Nat.le_trans hfirst hlast)⟩, hkind, hfirst,
    hlast⟩

/-- More blocks lead further in. -/
theorem depth_resolve_mono (hsubset : blocks ⊆ blocks') :
    depth (resolve blocks offset) ≤ depth (resolve blocks' offset) := by
  have hmethod := @IsInside.mono blocks blocks' offset .method hsubset
  have hfunction := @IsInside.mono blocks blocks' offset .function hsubset
  have hclass := @IsInside.mono blocks blocks' offset .classBody hsubset
  rw [resolve_eq_ite, resolve_eq_ite]
  split_ifs <;> first | decide | (exfalso; tauto)

end Place

end Scope

namespace Pattern

theorem describes_declaration_either_iff {p q : Pattern} {stretch : List Char}
    {kept : Option (Nat × Nat)} :
    (declaration (either p q)).Describes stretch kept ↔
      (declaration p).Describes stretch kept ∨ (declaration q).Describes stretch kept := by
  constructor
  · rintro ⟨front, back, here, there, rfl, hkeyword | hkeyword, hname, rfl⟩
    · exact .inl ⟨front, back, here, there, rfl, hkeyword, hname, rfl⟩
    · exact .inr ⟨front, back, here, there, rfl, hkeyword, hname, rfl⟩
  · rintro (⟨front, back, here, there, rfl, hkeyword, hname, rfl⟩ |
      ⟨front, back, here, there, rfl, hkeyword, hname, rfl⟩)
    · exact ⟨front, back, here, there, rfl, .inl hkeyword, hname, rfl⟩
    · exact ⟨front, back, here, there, rfl, .inr hkeyword, hname, rfl⟩

/-- The keywords by which variables are declared. -/
def variableKeywords : List String := ["const", "let", "var"]

/-- A declaration of a variable keeps the name behind one of the keywords. -/
theorem describes_variableDeclaration_iff {stretch : List Char} {kept : Option (Nat × Nat)} :
    variableDeclaration.Describes stretch kept ↔ ∃ keyword ∈ variableKeywords, ∃ space name,
      IsGap space ∧ KeepsName stretch kept (keyword.toList ++ space) name [] := by
  rw [variableDeclaration, describes_declaration_either_iff, describes_declaration_either_iff]
  simp only [describes_declaration_iff, variableKeywords, List.mem_cons, List.not_mem_nil,
    or_false, exists_eq_or_imp, exists_eq_left]

end Pattern

namespace ScopedVariable

/-- A variable is declared in a text: at its offset stands a keyword, and behind white space its
name, which ends there. -/
def IsDeclaredIn (text : List Char) (declared : ScopedVariable) : Prop :=
  ∃ keyword ∈ Pattern.variableKeywords, ∃ front space back,
    text = front ++ (keyword.toList ++ (space ++ (declared.name.toList ++ back))) ∧
      Pattern.IsGap space ∧ Pattern.IsName declared.name.toList ∧
      back.head?.any Pattern.continuesName = false ∧ declared.offset = byteLength front

variable {text : List Char} {blocks : List Block}

/-- A variable comes from a match of its declaration. -/
theorem exists_of_mem_extract {declared : ScopedVariable} (h : declared ∈ extract text blocks) :
    ∃ found ∈ Pattern.variableDeclaration.findAll text, found.start = declared.offset ∧
      found.group = some declared.name ∧ declared.scope = Scope.resolve blocks declared.offset := by
  rw [extract_eq_filterMap, List.mem_filterMap] at h
  obtain ⟨found, hfound, hdeclared⟩ := h
  obtain ⟨name, hname, rfl⟩ := Option.map_eq_some_iff.1 hdeclared
  exact ⟨found, hfound, rfl, hname, rfl⟩

theorem isDeclaredIn_of_mem_extract {declared : ScopedVariable}
    (h : declared ∈ extract text blocks) : declared.IsDeclaredIn text := by
  obtain ⟨found, hfound, hoffset, hname, -⟩ := exists_of_mem_extract h
  obtain ⟨front, stretch, back, kept, rfl, hdescribes, hstart, -, hgroup, hback⟩ :=
    Pattern.exists_describes_of_mem_findAll_of_lastRun
      (show _ = some Pattern.continuesName from rfl) hfound
  obtain ⟨keyword, hkeyword, space, name, hspace, hkeeps⟩ :=
    Pattern.describes_variableDeclaration_iff.1 hdescribes
  rw [hkeeps.group_eq, hname, Option.some_inj] at hgroup
  refine ⟨keyword, hkeyword, front, space, back, ?_, hspace, ?_, hback, hoffset.symm.trans hstart⟩
  · simp [hkeeps.stretch_eq, hgroup]
  · rw [hgroup, String.toList_ofList]
    exact hkeeps.isName

/-- Variables are listed in the order of their places. -/
theorem pairwise_offset_extract (text : List Char) (blocks : List Block) :
    (extract text blocks).Pairwise fun declared later => declared.offset < later.offset := by
  rw [extract_eq_filterMap, List.pairwise_filterMap]
  refine (Pattern.pairwise_findAll Pattern.variableDeclaration text).imp_of_mem
    fun {found other} hfound _ hle declared hdeclared later hlater => ?_
  obtain ⟨_, -, rfl⟩ := Option.map_eq_some_iff.1 hdeclared
  obtain ⟨_, -, rfl⟩ := Option.map_eq_some_iff.1 hlater
  have hlt := Pattern.start_lt_stop_of_ne_nil (fun h => by
    obtain ⟨keyword, -, space, name, -, hkeeps⟩ := Pattern.describes_variableDeclaration_iff.1 h
    exact hkeeps.stretch_ne_nil) hfound
  exact Nat.lt_of_lt_of_le hlt hle

end ScopedVariable

/-- The scope of a place is decided by the kinds of the blocks around it: methods come before
functions, and these before classes. Neither the order of the blocks nor their widths matter, nor
blocks that end before they start, and further blocks only lead further in. The variables of a text
are declared at their offsets, which ascend, and have the scopes of these places. -/
theorem Extraction.declarations_scoped_by_kind :
    (∀ (blocks : List Block) (offset : Nat),
      Scope.resolve blocks offset =
        if Scope.IsInside blocks offset .method then .method
        else if Scope.IsInside blocks offset .function then .function
        else if Scope.IsInside blocks offset .classBody then .classBody
        else .global) ∧
    (∀ (blocks blocks' : List Block) (offset : Nat),
      (blocks.Perm blocks' → Scope.resolve blocks offset = Scope.resolve blocks' offset) ∧
      ((∀ kind, Scope.IsInside blocks offset kind ↔ Scope.IsInside blocks' offset kind) →
        Scope.resolve blocks offset = Scope.resolve blocks' offset) ∧
      Scope.resolve (blocks.filter fun block => block.span.first ≤ block.span.last) offset =
        Scope.resolve blocks offset ∧
      (blocks ⊆ blocks' →
        (Scope.resolve blocks offset).depth ≤ (Scope.resolve blocks' offset).depth)) ∧
    ∀ (limit : Nat) (source : String),
      (∀ declared ∈ (ofText limit source).declarations,
        declared.scope = Scope.resolve (ofText limit source).blocks declared.offset ∧
          declared.IsDeclaredIn source.toList) ∧
      (ofText limit source).declarations.Pairwise fun declared later =>
        declared.offset < later.offset := by
  refine ⟨fun _ _ => Scope.resolve_eq_ite, fun blocks blocks' offset => ⟨Scope.resolve_perm,
    Scope.resolve_congr, Scope.resolve_filter, Scope.depth_resolve_mono⟩, fun limit source => ?_⟩
  refine ⟨fun declared hdeclared => ?_, ScopedVariable.pairwise_offset_extract _ _⟩
  obtain ⟨found, -, -, -, hscope⟩ := ScopedVariable.exists_of_mem_extract hdeclared
  exact ⟨hscope, ScopedVariable.isDeclaredIn_of_mem_extract hdeclared⟩

end CodeSurvey
