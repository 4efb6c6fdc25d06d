import CodeSurvey.Proofs.ListLemmas
import CodeSurvey.Proofs.LowerCase
import CodeSurvey.Resolution

/-!
# Reference resolution correctness

A project refers to a name if one of its mentions names it in lower case, the name is that of
another project, and it is spelled as in the first project that has it. References come in the order
of the first mention of each, those of one mention in the order of the projects. A mention that
names no other project is external.

## Key results

- `mem_knownNames_iff` / `pairwise_knownNames`: which names are known, and in which order
- `mem_references_iff` / `pairwise_references`: what a project refers to, and in which order
- `mem_external_iff` / `pairwise_external`: what is external, and in which order
- `forall₂_classifies_resolve`: resolution puts every mention on one side
-/

namespace CodeSurvey.Resolution

/-! ## Known names -/

/-- Adds a name to those that are known, unless one that agrees with it in lower case is there. -/
def learn (known : List KnownName) (name : String) : List KnownName :=
  if known.any (·.lowered == Text.lower name) then known
  else known ++ [⟨Text.lower name, name⟩]

/-- The first of the names that agree with this one in lower case is spelled like it. -/
def IsFirstSpelling (names : List String) (name : String) : Prop :=
  names.find? (fun other => Text.lower other == Text.lower name) = some name

instance (names : List String) (name : String) : Decidable (IsFirstSpelling names name) :=
  inferInstanceAs (Decidable (_ = _))

theorem IsFirstSpelling.mem {names : List String} {name : String}
    (h : IsFirstSpelling names name) : name ∈ names :=
  List.mem_of_find?_eq_some h

theorem isFirstSpelling_concat_iff (names : List String) (name last : String) :
    IsFirstSpelling (names ++ [last]) name ↔ IsFirstSpelling names name ∨
      name = last ∧ ∀ other ∈ names, Text.lower other ≠ Text.lower last := by
  unfold IsFirstSpelling
  rw [List.find?_append, Option.or_eq_some_iff, List.find?_eq_none]
  apply or_congr_right
  simp only [List.find?_singleton, beq_iff_eq]
  constructor
  · rintro ⟨hnone, hlast⟩
    split at hlast
    · obtain rfl := Option.some.inj hlast
      exact ⟨rfl, hnone⟩
    · exact nomatch hlast
  · rintro ⟨rfl, hnone⟩
    exact ⟨hnone, by simp⟩

theorem knownNames_concat (names : List String) (name : String) :
    knownNames (names ++ [name]) =
      if name = "" then knownNames names else learn (knownNames names) name := by
  unfold knownNames
  rw [List.filter_append, List.foldl_append]
  by_cases hempty : name = ""
  · simp [hempty]
  · rw [if_neg hempty, List.filter_cons_of_pos (by simpa using hempty)]
    rfl

/-- Every name agrees in lower case with the first one that does. -/
theorem exists_isFirstSpelling {names : List String} {name : String} (h : name ∈ names) :
    ∃ first, IsFirstSpelling names first ∧ Text.lower first = Text.lower name := by
  have hsome : (names.find? fun other => Text.lower other == Text.lower name).isSome := by
    rw [List.find?_isSome]
    exact ⟨name, h, beq_self_eq_true (Text.lower name)⟩
  obtain ⟨first, hfirst⟩ := Option.isSome_iff_exists.1 hsome
  have hlower : Text.lower first = Text.lower name := by simpa using List.find?_some hfirst
  refine ⟨first, ?_, hlower⟩
  rw [IsFirstSpelling, hlower]
  exact hfirst

/-- What is known are the first spellings of the names that are not empty. -/
def IsKnown (names : List String) (known : KnownName) : Prop :=
  known.lowered = Text.lower known.name ∧ known.name ≠ "" ∧ IsFirstSpelling names known.name

/-- A name that agrees with one of the known ones agrees with one of the names, and conversely. -/
theorem any_lowered_iff {names : List String} {known : List KnownName}
    (h : ∀ other, other ∈ known ↔ IsKnown names other) {name : String} (hne : name ≠ "") :
    known.any (·.lowered == Text.lower name) = true ↔
      ∃ other ∈ names, Text.lower other = Text.lower name := by
  rw [List.any_eq_true]
  constructor
  · rintro ⟨other, hother, heq⟩
    obtain ⟨hlowered, -, hfirst⟩ := (h other).1 hother
    exact ⟨other.name, hfirst.mem, hlowered.symm.trans (eq_of_beq heq)⟩
  · rintro ⟨other, hother, heq⟩
    obtain ⟨first, hfirst, hlower⟩ := exists_isFirstSpelling hother
    rw [heq] at hlower
    have hfirstne : first ≠ "" := by
      rwa [ne_eq, ← Text.lower_eq_empty_iff, hlower, Text.lower_eq_empty_iff]
    exact ⟨⟨Text.lower first, first⟩, (h _).2 ⟨rfl, hfirstne, hfirst⟩, beq_iff_eq.2 hlower⟩

theorem mem_knownNames_iff (names : List String) (known : KnownName) :
    known ∈ knownNames names ↔ IsKnown names known := by
  induction names using List.reverseRecOn generalizing known with
  | nil => simp [knownNames, IsKnown, IsFirstSpelling]
  | append_singleton names last ih =>
    unfold IsKnown at ih ⊢
    rw [knownNames_concat, isFirstSpelling_concat_iff]
    split_ifs with hempty
    · -- an empty name is not known
      rw [ih]
      grind
    · -- another one is known already exactly if it agrees with one of those before it
      have hany := any_lowered_iff ih hempty
      rw [learn]
      split_ifs with hthere
      · obtain ⟨other, hother, heq⟩ := hany.1 hthere
        rw [ih]
        grind
      · rw [hany] at hthere
        push Not at hthere
        rw [List.mem_append, List.mem_singleton, ih]
        obtain ⟨lowered, name⟩ := known
        grind

/-- Names are known in the order in which they come first. -/
theorem pairwise_knownNames (names : List String) :
    (knownNames names).Pairwise fun a b => names.idxOf a.name < names.idxOf b.name := by
  induction names using List.reverseRecOn with
  | nil => exact List.Pairwise.nil
  | append_singleton names last ih =>
    have hmem : ∀ known ∈ knownNames names, known.name ∈ names := fun known hknown =>
      ((mem_knownNames_iff names known).1 hknown).2.2.mem
    have hfront : (knownNames names).Pairwise fun a b =>
        (names ++ [last]).idxOf a.name < (names ++ [last]).idxOf b.name :=
      ih.imp_of_mem fun {a b} ha hb hlt => by
        rwa [List.idxOf_append_of_mem (hmem a ha), List.idxOf_append_of_mem (hmem b hb)]
    rw [knownNames_concat, learn]
    split_ifs with hempty hthere
    · exact hfront
    · exact hfront
    · rw [any_lowered_iff (mem_knownNames_iff names) hempty] at hthere
      rw [List.pairwise_append]
      refine ⟨hfront, List.pairwise_singleton _ _, fun known hknown other hother => ?_⟩
      obtain rfl := List.mem_singleton.1 hother
      -- the new name stands behind all others
      have hnew : last ∉ names := fun hlast => hthere ⟨last, hlast, rfl⟩
      rw [List.idxOf_append_of_mem (hmem known hknown), List.idxOf_append_of_notMem hnew]
      exact Nat.lt_of_lt_of_le (List.idxOf_lt_length_of_mem (hmem known hknown))
        (Nat.le_add_right _ _)

/-! ## Mentions of one project -/

/-- A project called `own` can refer to a name: it is not empty, not its own name in whatever case,
and spelled as in the first of the projects that have it. -/
structure IsReferable (names : List String) (own name : String) : Prop where
  first : IsFirstSpelling names name
  ne_empty : name ≠ ""
  foreign : Text.lower name ≠ Text.lower own

/-- Whether a mention names a project, both taken in lower case. -/
def mentionsName (name mention : String) : Bool :=
  mentionNames (Text.lower mention) (Text.lower name)

variable (names : List String) (own : String)

theorem mem_named_iff (mention name : String) :
    name ∈ named (knownNames names) (Text.lower own) mention ↔
      IsReferable names own name ∧ mentionsName name mention = true := by
  simp only [named, List.mem_map, List.mem_filter, mem_knownNames_iff, Bool.and_eq_true, bne_iff_ne]
  constructor
  · rintro ⟨known, ⟨⟨hlowered, hne, hfirst⟩, hforeign, hnames⟩, rfl⟩
    rw [hlowered] at hforeign hnames
    exact ⟨⟨hfirst, hne, hforeign⟩, hnames⟩
  · rintro ⟨⟨hfirst, hne, hforeign⟩, hnames⟩
    exact ⟨⟨Text.lower name, name⟩, ⟨⟨rfl, hne, hfirst⟩, hforeign, hnames⟩, rfl⟩

/-- One mention names projects in their order. -/
theorem pairwise_named (mention : String) :
    (named (knownNames names) (Text.lower own) mention).Pairwise fun a b =>
      names.idxOf a < names.idxOf b :=
  List.pairwise_map.2 ((pairwise_knownNames names).filter _)

theorem mem_references_iff (mentions : List String) (name : String) :
    name ∈ references (knownNames names) (Text.lower own) mentions ↔
      IsReferable names own name ∧ ∃ mention ∈ mentions, mentionsName name mention = true := by
  simp only [references, firstOccurrences, List.mem_eraseDups, List.mem_flatMap, mem_named_iff]
  grind

theorem pairwise_references (mentions : List String) :
    (references (knownNames names) (Text.lower own) mentions).Pairwise fun a b =>
      mentions.findIdx (mentionsName a) < mentions.findIdx (mentionsName b) ∨
        mentions.findIdx (mentionsName a) = mentions.findIdx (mentionsName b) ∧
          names.idxOf a < names.idxOf b := by
  have hordered := List.pairwise_eraseDups_flatMap (l := mentions)
    fun mention _ => pairwise_named names own mention
  refine hordered.imp_of_mem fun {a b} ha hb hab => ?_
  have hfirst : ∀ name ∈ references (knownNames names) (Text.lower own) mentions,
      mentions.findIdx (fun mention =>
        (named (knownNames names) (Text.lower own) mention).contains name) =
        mentions.findIdx (mentionsName name) := fun name hname => by
    congr 1
    funext mention
    rw [Bool.eq_iff_iff, List.contains_iff_mem, mem_named_iff,
      and_iff_right ((mem_references_iff names own mentions name).1 hname).1]
  rwa [hfirst a ha, hfirst b hb] at hab

theorem mem_external_iff (mentions : List String) (mention : String) :
    mention ∈ external (knownNames names) (Text.lower own) mentions ↔
      mention ∈ mentions ∧
        ∀ name, IsReferable names own name → mentionsName name mention = false := by
  simp only [external, firstOccurrences, List.mem_eraseDups, List.mem_filter, List.isEmpty_iff,
    List.eq_nil_iff_forall_not_mem, mem_named_iff, not_and, Bool.not_eq_true]

theorem pairwise_external (mentions : List String) :
    (external (knownNames names) (Text.lower own) mentions).Pairwise fun a b =>
      mentions.idxOf a < mentions.idxOf b := by
  rw [external, firstOccurrences, List.eraseDups_filter]
  exact (List.pairwise_idxOf_eraseDups mentions).filter _

/-! ## Resolved projects -/

/-- A project whose mentions have been resolved among projects with the given names: it refers to
the names that its mentions name, in the order of the first mention of each and then of the
projects, and the mentions that name none are external, in their order. -/
structure Classifies (project resolved : Project) : Prop where
  mem_references : ∀ name, name ∈ resolved.references ↔
    IsReferable names project.name name ∧
      ∃ mention ∈ project.mentions, mentionsName name mention = true
  nodup_references : resolved.references.Nodup
  references_ordered : resolved.references.Pairwise fun a b =>
    project.mentions.findIdx (mentionsName a) < project.mentions.findIdx (mentionsName b) ∨
      project.mentions.findIdx (mentionsName a) = project.mentions.findIdx (mentionsName b) ∧
        names.idxOf a < names.idxOf b
  mem_external : ∀ mention, mention ∈ resolved.externalReferences ↔
    mention ∈ project.mentions ∧
      ∀ name, IsReferable names project.name name → mentionsName name mention = false
  nodup_external : resolved.externalReferences.Nodup
  external_ordered : resolved.externalReferences.Pairwise fun a b =>
    project.mentions.idxOf a < project.mentions.idxOf b
  divided : ∀ mention ∈ project.mentions, mention ∈ resolved.externalReferences ↔
    ¬ ∃ name ∈ resolved.references, mentionsName name mention = true
  unchanged : { resolved with
    references := project.references
    externalReferences := project.externalReferences } = project

theorem classifies_resolveProject (project : Project) :
    Classifies names project (resolveProject (knownNames names) project) := by
  have hreferences := mem_references_iff names project.name project.mentions
  have hexternal := mem_external_iff names project.name project.mentions
  have hordered := pairwise_references names project.name project.mentions
  have hfirst := pairwise_external names project.name project.mentions
  exact {
    mem_references := hreferences
    nodup_references := List.nodup_eraseDups _
    references_ordered := hordered
    mem_external := hexternal
    nodup_external := List.nodup_eraseDups _
    external_ordered := hfirst
    divided := fun mention hmention => by
      -- a name that the mention names is referred to, so none is exactly if no reference is
      rw [resolveProject, hexternal, and_iff_right hmention]
      constructor
      · rintro hnone ⟨name, hname, hnames⟩
        have hfalse := hnone name ((hreferences name).1 hname).1
        exact Bool.false_ne_true (hfalse.symm.trans hnames)
      · intro hnone name hname
        rw [Bool.eq_false_iff]
        exact fun hnames => hnone ⟨name, (hreferences name).2 ⟨hname, mention, hmention, hnames⟩,
          hnames⟩
    unchanged := rfl }

/-- What the mentions of a project come to: the names it refers to, and what is external. -/
def findings (project : Project) : List String × List String :=
  (project.references, project.externalReferences)

variable (projects : List Project)

/-- What a project's mentions come to follows from the names of all projects and these mentions. -/
theorem map_findings_getElem?_resolve (i : Nat) :
    (resolve projects)[i]?.map findings = (projects[i]?).map fun project =>
      findings (resolveProject (knownNames (projects.map Project.name))
        { name := project.name, rootPath := ⟨""⟩, mentions := project.mentions }) := by
  rw [resolve, List.getElem?_map, Option.map_map]
  rfl

/-- Resolution puts every mention on one side: it contributes to the references of its project, or
it is external. Nothing else changes, and the mentions of other projects do not matter. -/
theorem forall₂_classifies_resolve :
    List.Forall₂ (Classifies (projects.map Project.name)) projects (resolve projects) ∧
      ∀ others : List Project, others.map Project.name = projects.map Project.name →
        ∀ i : Nat, others[i]?.map Project.mentions = projects[i]?.map Project.mentions →
          (resolve others)[i]?.map findings = (resolve projects)[i]?.map findings := by
  constructor
  · rw [resolve, List.forall₂_map_right_iff, List.forall₂_same]
    exact fun project _ => classifies_resolveProject _ project
  · intro others hnames i hmentions
    have hname : others[i]?.map Project.name = projects[i]?.map Project.name := by
      rw [← List.getElem?_map, ← List.getElem?_map, hnames]
    rw [map_findings_getElem?_resolve, map_findings_getElem?_resolve, hnames]
    -- the two have the same name and the same mentions, if there are two
    cases hproject : projects[i]? with
    | none =>
      rw [hproject, Option.map_none, Option.map_eq_none_iff] at hname
      rw [hname]
    | some project =>
      rw [hproject, Option.map_some, Option.map_eq_some_iff] at hname
      obtain ⟨other, hother, hname⟩ := hname
      rw [hother, hproject] at hmentions
      rw [hother, Option.map_some, Option.map_some, hname, Option.some.inj hmentions]

/-- A project that mentions itself and one of two projects whose names differ in case only, and
what the first of these mentions. -/
def relatives (mentions : List String) : List Project :=
  [{ name := "App", rootPath := ⟨"/ws/App"⟩,
     mentions := ["../BETA/x", "react", "./app/x", "@beta/core", "react"] },
   { name := "beta", rootPath := ⟨"/ws/lib/beta"⟩, mentions },
   { name := "Beta", rootPath := ⟨"/ws/Beta"⟩ }]

theorem forall₂_classifies_resolve_relatives :
    (relatives ["App/x", "vue"]).map Project.name = (relatives []).map Project.name ∧
      (relatives ["App/x", "vue"])[0]?.map Project.mentions =
        (relatives [])[0]?.map Project.mentions ∧
      (resolve (relatives ["App/x", "vue"]))[0]?.map findings =
        some (["beta"], ["react", "./app/x"]) := by
  obtain ⟨-, hfindings⟩ := forall₂_classifies_resolve (relatives [])
  have hsame := hfindings (relatives ["App/x", "vue"]) rfl 0 rfl
  exact ⟨rfl, rfl, hsame.trans (by decide +kernel)⟩

end CodeSurvey.Resolution
