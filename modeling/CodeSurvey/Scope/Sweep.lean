import CodeSurvey.Scope

/-!
# Sweeps

The scopes of many places of a text at once. A sweep goes through the text from left to right and
keeps only the blocks that it is in, and those that are still ahead in the order of their starts.
`resolveAll_eq_map` says that this finds the same scopes as looking at all blocks for each place.
-/

namespace CodeSurvey

/-- How far a sweep over the blocks of a text has come. -/
structure Sweep where
  /-- The byte offset that has been reached. -/
  reached : Nat
  /-- The blocks around this place. -/
  around : List Block
  /-- The blocks that start behind this place, in the order of their starts. -/
  ahead : List Block

namespace Sweep

/-- Blocks in the order of their starts. -/
def inOrder (blocks : List Block) : List Block :=
  blocks.mergeSort fun a b => decide (a.span.first ≤ b.span.first)

/-- The sweep at the start of a text. -/
def ofBlocks (blocks : List Block) : Sweep :=
  ⟨0, [], inOrder blocks⟩

/-- The sweep at a place that is not behind the one it has reached. -/
def advance (sweep : Sweep) (offset : Nat) : Sweep where
  reached := offset
  around :=
    (sweep.ahead.takeWhile (·.span.first ≤ offset) ++ sweep.around).filter (offset ≤ ·.span.last)
  ahead := sweep.ahead.dropWhile (·.span.first ≤ offset)

/-- The scopes of byte offsets among blocks, put behind `found`, which is reversed. A place behind
the sweep is looked up by itself. -/
def scopesFrom (blocks : List Block) :
    (sweep : Sweep) → (found : List Scope) → (offsets : List Nat) → List Scope
  | _, found, [] => found.reverse
  | sweep, found, offset :: rest =>
    if offset < sweep.reached then
      scopesFrom blocks sweep (Scope.resolve blocks offset :: found) rest
    else
      let next := sweep.advance offset
      scopesFrom blocks next (Scope.within next.around :: found) rest

/-- What a sweep knows of some blocks: which of them lie around a place that has not been passed. -/
structure Knows (sweep : Sweep) (blocks : List Block) : Prop where
  ascending : sweep.ahead.Pairwise fun a b => a.span.first ≤ b.span.first
  around_iff : ∀ offset, sweep.reached ≤ offset → ∀ block : Block,
    block.span.contains offset = true →
      (block ∈ blocks ↔ block ∈ sweep.around ∨ block ∈ sweep.ahead)
  started : ∀ block ∈ sweep.around, block.span.first ≤ sweep.reached

theorem knows_ofBlocks (blocks : List Block) : (ofBlocks blocks).Knows blocks where
  ascending := by
    have h : (inOrder blocks).Pairwise fun a b => decide (a.span.first ≤ b.span.first) = true :=
      List.pairwise_mergeSort (fun a b c hab hbc => by simp_all; omega)
        (fun a b => by simp; omega) blocks
    exact h.imp fun h => of_decide_eq_true h
  around_iff := by simp [ofBlocks, inOrder, List.mem_mergeSort]
  started := by simp [ofBlocks]

theorem mem_takeWhile_of_first_le {blocks : List Block} {offset : Nat}
    (hsorted : blocks.Pairwise fun a b => a.span.first ≤ b.span.first) {block : Block}
    (hmem : block ∈ blocks) (hle : block.span.first ≤ offset) :
    block ∈ blocks.takeWhile (·.span.first ≤ offset) := by
  induction blocks with
  | nil => simp at hmem
  | cons first rest ih =>
    have hall := List.pairwise_cons.1 hsorted
    have hfirst : first.span.first ≤ offset := by
      rcases List.mem_cons.1 hmem with rfl | hmem
      · exact hle
      · exact Nat.le_trans (hall.1 block hmem) hle
    rw [List.takeWhile_cons_of_pos (by simpa using hfirst)]
    rcases List.mem_cons.1 hmem with rfl | hmem
    · exact List.mem_cons_self
    · exact List.mem_cons_of_mem _ (ih hall.2 hmem)

/-- The blocks around the place that a sweep has come to are those that contain it. -/
theorem mem_around_advance {sweep : Sweep} {blocks : List Block} {offset : Nat}
    (h : sweep.Knows blocks) (hle : sweep.reached ≤ offset) (block : Block) :
    block ∈ (sweep.advance offset).around ↔
      block ∈ blocks ∧ block.span.contains offset = true := by
  simp only [advance, List.mem_filter, List.mem_append, decide_eq_true_eq, Span.contains_iff]
  constructor
  · rintro ⟨hmem, hlast⟩
    have hfirst : block.span.first ≤ offset := by
      rcases hmem with hmem | hmem
      · simpa using List.all_eq_true.1 List.all_takeWhile block hmem
      · exact Nat.le_trans (h.started block hmem) hle
    refine ⟨(h.around_iff offset hle block (by simp [hfirst, hlast])).2 ?_, hfirst, hlast⟩
    exact hmem.elim (fun hmem => .inr (List.takeWhile_sublist _ |>.mem hmem)) .inl
  · rintro ⟨hmem, hfirst, hlast⟩
    refine ⟨?_, hlast⟩
    rcases (h.around_iff offset hle block (by simp [hfirst, hlast])).1 hmem with hmem | hmem
    · exact .inr hmem
    · exact .inl (mem_takeWhile_of_first_le h.ascending hmem hfirst)

theorem knows_advance {sweep : Sweep} {blocks : List Block} {offset : Nat}
    (h : sweep.Knows blocks) (hle : sweep.reached ≤ offset) :
    (sweep.advance offset).Knows blocks where
  ascending := h.ascending.sublist (List.dropWhile_sublist _)
  around_iff := by
    intro place hplace block hcontains
    have hspan := (Span.contains_iff _ _).1 hcontains
    rw [h.around_iff place (Nat.le_trans hle hplace) block hcontains]
    have hlast : offset ≤ block.span.last := Nat.le_trans hplace hspan.2
    have hsplit : block ∈ sweep.ahead ↔
        block ∈ sweep.ahead.takeWhile (·.span.first ≤ offset) ∨
          block ∈ sweep.ahead.dropWhile (·.span.first ≤ offset) := by
      rw [← List.mem_append, List.takeWhile_append_dropWhile]
    simp only [advance, List.mem_filter, List.mem_append, hlast, decide_true, and_true]
    rw [hsplit, ← or_assoc, or_comm (a := block ∈ sweep.around)]
  started := fun block hmem =>
    ((Span.contains_iff _ _).1 ((mem_around_advance h hle block).1 hmem).2).1

theorem scopesFrom_eq {blocks : List Block} {sweep : Sweep} (h : sweep.Knows blocks)
    (found : List Scope) (offsets : List Nat) :
    scopesFrom blocks sweep found offsets =
      found.reverse ++ offsets.map (Scope.resolve blocks) := by
  induction offsets generalizing sweep found with
  | nil => simp [scopesFrom]
  | cons offset rest ih =>
    rw [scopesFrom]
    split
    · simp [ih h]
    · have hle : sweep.reached ≤ offset := by omega
      have hscope : Scope.within (sweep.advance offset).around = Scope.resolve blocks offset :=
        Scope.within_congr fun block => by
          rw [mem_around_advance h hle, List.mem_filter]
      simp [ih (knows_advance h hle), hscope]

end Sweep

namespace Scope

/-- The scopes of byte offsets among blocks. -/
def resolveAll (blocks : List Block) (offsets : List Nat) : List Scope :=
  Sweep.scopesFrom blocks (Sweep.ofBlocks blocks) [] offsets

/-- Scopes that are found on one way through the blocks are those that are found one by one. -/
theorem resolveAll_eq_map (blocks : List Block) (offsets : List Nat) :
    resolveAll blocks offsets = offsets.map (resolve blocks) := by
  rw [resolveAll, Sweep.scopesFrom_eq (Sweep.knows_ofBlocks blocks), List.reverse_nil,
    List.nil_append]

end Scope

end CodeSurvey
