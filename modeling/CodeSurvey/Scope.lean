import CodeSurvey.Block

/-!
# Scopes

The scope of a place in a source text: that of a method around it, failing that of a function, then
of a class, and the global one outside all blocks.
-/

namespace CodeSurvey

/-- Where a variable belongs. -/
inductive Scope where
  | global
  | classBody
  | function
  | method
deriving Repr, DecidableEq

namespace Scope

/-- The scopes from the outermost to the innermost. -/
def all : List Scope := [global, classBody, function, method]

/-- The word for a scope. -/
def word : Scope → String
  | global => "global"
  | classBody => "class"
  | function => "function"
  | method => "method"

/-- The scope with a given word. -/
def ofWord? (text : String) : Option Scope :=
  all.find? fun scope => scope.word == text

/-- The scope inside a block of a given kind. -/
def ofKind : BlockKind → Scope
  | .function => function
  | .method => method
  | .classBody => classBody

instance : Inhabited Scope := ⟨global⟩

/-- Whether the first of two blocks decides the scope of a place in both: the kind with the smaller
priority does, of two such blocks the narrower one, and the earlier of two alike. -/
def decidesOver (a b : Block) : Bool :=
  a.kind.priority < b.kind.priority
    || (a.kind.priority == b.kind.priority && a.span.width ≤ b.span.width)

/-- The block that decides the scope, of several around one place. -/
def deciding : List Block → Option Block
  | [] => none
  | block :: rest =>
    match deciding rest with
    | none => some block
    | some other => some (if decidesOver block other then block else other)

/-- The scope of a place that lies in all of the given blocks and in no other. -/
def within (blocks : List Block) : Scope :=
  match deciding blocks with
  | none => global
  | some block => ofKind block.kind

/-- The scope of a byte offset among blocks. -/
def resolve (blocks : List Block) (offset : Nat) : Scope :=
  within (blocks.filter (·.span.contains offset))

theorem deciding_eq_none_iff {blocks : List Block} : deciding blocks = none ↔ blocks = [] := by
  cases blocks with
  | nil => simp [deciding]
  | cons block rest => cases h : deciding rest <;> simp [deciding, h]

/-- The deciding block is one of the blocks, and no other has a smaller priority. -/
theorem priority_deciding_le {blocks : List Block} {block : Block}
    (h : deciding blocks = some block) :
    block ∈ blocks ∧ ∀ other ∈ blocks, block.kind.priority ≤ other.kind.priority := by
  induction blocks generalizing block with
  | nil => simp [deciding] at h
  | cons first rest ih =>
    cases hrest : deciding rest with
    | none =>
      rw [deciding_eq_none_iff] at hrest
      subst hrest
      simp_all [deciding]
    | some other =>
      obtain ⟨hmem, hle⟩ := ih hrest
      simp only [deciding, hrest, Option.some.injEq] at h
      split at h
      · rename_i hover
        subst h
        have hfirst : first.kind.priority ≤ other.kind.priority := by
          simp only [decidesOver, Bool.or_eq_true, decide_eq_true_eq, Bool.and_eq_true,
            beq_iff_eq] at hover
          omega
        refine ⟨by simp, fun b hb => ?_⟩
        rcases List.mem_cons.1 hb with rfl | hb
        · exact Nat.le_refl _
        · exact Nat.le_trans hfirst (hle b hb)
      · rename_i hover
        subst h
        have hother : other.kind.priority ≤ first.kind.priority := by
          simp only [decidesOver, Bool.or_eq_true, decide_eq_true_eq, not_or] at hover
          omega
        refine ⟨List.mem_cons_of_mem _ hmem, fun b hb => ?_⟩
        rcases List.mem_cons.1 hb with rfl | hb
        · exact hother
        · exact hle b hb

/-- The order of the blocks around a place does not matter, nor how often they are listed. -/
theorem within_congr {blocks blocks' : List Block}
    (h : ∀ block, block ∈ blocks ↔ block ∈ blocks') : within blocks = within blocks' := by
  unfold within
  cases hd : deciding blocks with
  | none =>
    rw [deciding_eq_none_iff] at hd
    subst hd
    have : blocks' = [] := List.eq_nil_iff_forall_not_mem.2 fun b hb => by simpa using (h b).2 hb
    subst this
    rfl
  | some block =>
    obtain ⟨hmem, hle⟩ := priority_deciding_le hd
    cases hd' : deciding blocks' with
    | none =>
      rw [deciding_eq_none_iff] at hd'
      subst hd'
      simpa using (h block).1 hmem
    | some block' =>
      obtain ⟨hmem', hle'⟩ := priority_deciding_le hd'
      have heq : block.kind.priority = block'.kind.priority :=
        Nat.le_antisymm (hle _ ((h _).2 hmem')) (hle' _ ((h _).1 hmem))
      have hkind : block.kind = block'.kind := by
        revert heq
        cases block.kind <;> cases block'.kind <;> simp [BlockKind.priority]
      simp only [hkind]

@[simp] theorem resolve_nil (offset : Nat) : resolve [] offset = global := rfl

end Scope

end CodeSurvey
