import Mathlib.Data.List.Nodup
import CodeSurvey.Proofs.ProjectScan
import CodeSurvey.Proofs.SharingCorrect
import CodeSurvey.Proofs.TextOrder

/-!
# Shared identifiers of a scan are exact

A scan lists a name and kind exactly if parsed files of at least two projects hold blocks of that
name and kind, with the names of these projects and of those that agree on a text.

## Key results

- `Scanner.occurrences_outcome`: the occurrences in a report are the blocks of its parsed files
- `Scanner.scan_sharedIdentifiers`: the shared identifiers of a scan are exact
-/

namespace CodeSurvey

/-- A block of a parsed file of a project. -/
structure Declaration where
  project : Detected
  block : Block

namespace Declaration

/-- A block is declared under this name and kind. -/
def HasKey (name : String) (kind : BlockKind) (declaration : Declaration) : Prop :=
  declaration.block.name = name ∧ declaration.block.kind = kind

/-- A block is declared under this name and kind with this text. -/
def HasText (name : String) (kind : BlockKind) (text : String) (declaration : Declaration) : Prop :=
  declaration.HasKey name kind ∧ declaration.block.normalText = text

/-- The occurrence that a declaration is among the blocks that are compared. -/
def occurrence (declaration : Declaration) : Sharing.Occurrence :=
  ⟨declaration.block.name, declaration.block.kind, declaration.block.digest,
    declaration.project.index⟩

end Declaration

/-- Declarations with a property are found in at least two projects. -/
def AreSpread (declarations : List Declaration) (p : Declaration → Prop) : Prop :=
  ∃ a ∈ declarations, ∃ b ∈ declarations, p a ∧ p b ∧ a.project ≠ b.project

/-- A set holds the names of the projects of declarations with a property. -/
def NamesDeclarers (declarations : List Declaration) (p : Declaration → Prop) (names : NameSet) :
    Prop :=
  ∀ name, name ∈ names ↔
    ∃ declaration ∈ declarations, p declaration ∧ declaration.project.name = name

/-- What a report says of a name and kind that several projects declare. -/
structure DescribesSharing (declarations : List Declaration) (entry : SharedIdentifier) : Prop where
  declarers : NamesDeclarers declarations (Declaration.HasKey entry.name entry.kind) entry.projects
  strength : entry.strength = .hard ↔
    ∃ text, AreSpread declarations (Declaration.HasText entry.name entry.kind text)
  groups : ∃ texts : List String, texts.Nodup ∧
    (∀ text, text ∈ texts ↔
      AreSpread declarations (Declaration.HasText entry.name entry.kind text)) ∧
    List.Forall₂
      (fun text => NamesDeclarers declarations (Declaration.HasText entry.name entry.kind text))
      texts entry.hardOverlapGroups

/-- Identifiers list what is shared among some declarations: one entry for each name and kind that
several projects declare and no other, by the bytes of the name and then by kind. -/
structure ListsIdentifiers (declarations : List Declaration)
    (identifiers : List SharedIdentifier) : Prop where
  ascending : identifiers.Pairwise fun a b =>
    Text.utf8Bytes a.name < Text.utf8Bytes b.name ∨ a.name = b.name ∧ a.kind.rank < b.kind.rank
  exists_iff : ∀ name kind, (∃ entry ∈ identifiers, entry.name = name ∧ entry.kind = kind) ↔
    AreSpread declarations (Declaration.HasKey name kind)
  describes : ∀ entry ∈ identifiers, DescribesSharing declarations entry

/-- No two of the texts have one digest. -/
def TextDigestsDiffer (texts : List String) : Prop :=
  ∀ a ∈ texts, ∀ b ∈ texts, Digest.ofText a = Digest.ofText b → a = b

namespace Scanner

variable (scanner : Scanner)

/-- The blocks that the parsed files of a project declare. -/
def declarationsOf (project : Detected) : List Declaration :=
  (scanner.walk project.root).files.flatMap fun path =>
    (Analysis.parsedText? scanner.system scanner.settings.scan path).elim [] fun text =>
      (Block.extract scanner.settings.scan.blockTextLimit text.toList).map fun block =>
        ⟨project, block⟩

/-- The blocks that the parsed files of all projects declare. -/
def declarations : List Declaration :=
  scanner.detected.flatMap scanner.declarationsOf

/-- The texts of these blocks, in normal form and cut to the limit. -/
def declaredTexts : List String :=
  scanner.declarations.map fun declaration => declaration.block.normalText

/-- The identifiers of a file of a project are the blocks of its text. -/
theorem identifiers_examination (project : Detected) (path : Path) :
    ((scanner.examination project path).record.bind FileRecord.parsed).elim []
        ParsedFile.identifiers =
      (Analysis.parsedText? scanner.system scanner.settings.scan path).elim [] fun text =>
        (Block.extract scanner.settings.scan.blockTextLimit text.toList).map fun block =>
          block.detail (project.root.relativeText path) := by
  rw [examination, Analysis.parsed_record]
  cases Analysis.parsedText? scanner.system scanner.settings.scan path with
  | none => rfl
  | some text => rfl

/-- The occurrences in a report are the blocks of its parsed files. -/
theorem occurrences_outcome :
    Sharing.occurrences scanner.reportedProjects =
      scanner.declarations.map Declaration.occurrence := by
  rw [Sharing.occurrences, reportedProjects_eq_map, List.zipIdx_map, List.flatMap_map,
    zipIdx_detected, List.flatMap_map, declarations, List.map_flatMap]
  congr 1
  funext project
  have hdetails : (scanner.scanProject .idle project).project.identifierDetails =
      (scanner.walk project.root).files.flatMap fun path =>
        ((scanner.examination project path).record.bind FileRecord.parsed).elim []
          ParsedFile.identifiers := by
    rw [identifierDetails_scanProject, recordsOf, List.filterMap_eq_flatMap_toList,
      List.flatMap_assoc]
    congr 1
    funext path
    cases (scanner.examination project path).record with
    | none => rfl
    | some record => exact List.append_nil _
  -- resolving references leaves the identifiers of a project as they are
  show (scanner.scanProject .idle project).project.identifierDetails.map _ = _
  rw [hdetails, List.map_flatMap, declarationsOf, List.map_flatMap]
  congr 1
  funext path
  rw [identifiers_examination]
  cases Analysis.parsedText? scanner.system scanner.settings.scan path with
  | none => rfl
  | some text =>
    simp only [Option.elim_some, List.map_map]
    rfl

theorem project_mem_of_mem_declarations {declaration : Declaration}
    (h : declaration ∈ scanner.declarations) : declaration.project ∈ scanner.detected := by
  obtain ⟨project, hproject, hdeclaration⟩ := List.mem_flatMap.1 h
  obtain ⟨path, -, hblock⟩ := List.mem_flatMap.1 hdeclaration
  cases htext : Analysis.parsedText? scanner.system scanner.settings.scan path with
  | none => simp [htext] at hblock
  | some text =>
    rw [htext, Option.elim_some, List.mem_map] at hblock
    obtain ⟨_, _, rfl⟩ := hblock
    exact hproject

section

variable {p : Sharing.Occurrence → Prop} {q : Declaration → Prop}
variable (h : ∀ declaration ∈ scanner.declarations, p declaration.occurrence ↔ q declaration)

include h

/-- Occurrences lie in several projects exactly if the declarations do. -/
theorem isSpread_occurrences_iff :
    Sharing.IsSpread (Sharing.occurrences scanner.reportedProjects) p ↔
      AreSpread scanner.declarations q := by
  have hproject : ∀ a ∈ scanner.declarations, ∀ b ∈ scanner.declarations,
      a.project.index ≠ b.project.index ↔ a.project ≠ b.project := fun a ha b hb =>
    not_congr ⟨scanner.eq_of_index_eq (scanner.project_mem_of_mem_declarations ha)
      (scanner.project_mem_of_mem_declarations hb), congrArg Detected.index⟩
  simp only [Sharing.IsSpread, AreSpread, occurrences_outcome, List.mem_map,
    exists_exists_and_eq_and]
  refine exists_congr fun a => and_congr_right fun ha =>
    exists_congr fun b => and_congr_right fun hb => ?_
  rw [h a ha, h b hb]
  exact and_congr_right fun _ => and_congr_right fun _ => hproject a ha b hb

/-- The projects of occurrences are those of the declarations. -/
theorem namesOwners_iff (names : NameSet) :
    Sharing.NamesOwners scanner.reportedProjects p names ↔
      NamesDeclarers scanner.declarations q names := by
  simp only [Sharing.NamesOwners, NamesDeclarers, occurrences_outcome, List.mem_map,
    exists_exists_and_eq_and]
  -- the position in an occurrence leads to the name under which the project was detected
  refine forall_congr' fun name => iff_congr Iff.rfl <| exists_congr fun declaration =>
    and_congr_right fun hmem => ?_
  have hname := scanner.name_reportedProjects (scanner.project_mem_of_mem_declarations hmem)
  have hoccurrence : declaration.occurrence.project = declaration.project.index := rfl
  rw [h declaration hmem, hoccurrence, hname, Option.some_inj]

end

theorem mem_declaredTexts_of_areSpread {name : String} {kind : BlockKind} {text : String}
    (h : AreSpread scanner.declarations (Declaration.HasText name kind text)) :
    text ∈ scanner.declaredTexts := by
  obtain ⟨a, ha, _, _, ⟨-, htext⟩, _⟩ := h
  exact List.mem_map.2 ⟨a, ha, htext⟩

section

variable (hdigests : TextDigestsDiffer scanner.declaredTexts)

include hdigests

/-- Declarations have one digest exactly if they have one text. -/
theorem hasBody_iff_hasText {text : String} (htext : text ∈ scanner.declaredTexts) (name : String)
    (kind : BlockKind) (declaration : Declaration) (hmem : declaration ∈ scanner.declarations) :
    declaration.occurrence.HasBody name kind (.ofText text) ↔ declaration.HasText name kind text :=
  and_congr_right fun _ =>
    ⟨fun hbody => hdigests _ (List.mem_map_of_mem hmem) _ htext hbody, congrArg Digest.ofText⟩

omit hdigests in
/-- A digest that several projects share is that of a declared text. -/
theorem exists_declaredText {name : String} {kind : BlockKind} {body : Digest}
    (h : Sharing.IsSpread (Sharing.occurrences scanner.reportedProjects)
      (Sharing.Occurrence.HasBody name kind body)) :
    ∃ text, text ∈ scanner.declaredTexts ∧ Digest.ofText text = body := by
  obtain ⟨a, ha, _, _, ⟨-, hdigest⟩, _⟩ := h
  rw [occurrences_outcome, List.mem_map] at ha
  obtain ⟨declaration, hdeclaration, rfl⟩ := ha
  exact ⟨declaration.block.normalText, List.mem_map_of_mem hdeclaration, hdigest⟩

/-- What an entry says about occurrences and digests it says about declarations and texts. -/
theorem describesSharing_of_describes {entry : SharedIdentifier}
    (hentry : Sharing.Describes scanner.reportedProjects entry) :
    DescribesSharing scanner.declarations entry := by
  obtain ⟨hdeclarers, hstrength, bodies, hnodup, hbodies, hgroups⟩ := hentry
  have hspread : ∀ text ∈ scanner.declaredTexts,
      (Sharing.IsSpread (Sharing.occurrences scanner.reportedProjects)
          (Sharing.Occurrence.HasBody entry.name entry.kind (.ofText text)) ↔
        AreSpread scanner.declarations (Declaration.HasText entry.name entry.kind text)) :=
    fun text htext =>
      scanner.isSpread_occurrences_iff (scanner.hasBody_iff_hasText hdigests htext _ _)
  have htexts : ∀ body ∈ bodies, ∃ text, text ∈ scanner.declaredTexts ∧
      Digest.ofText text = body := fun body hbody =>
    scanner.exists_declaredText ((hbodies body).1 hbody)
  choose! textOf htextOf using htexts
  -- so the texts of the shared digests are the shared texts
  have hmem : ∀ text, text ∈ bodies.map textOf ↔
      AreSpread scanner.declarations (Declaration.HasText entry.name entry.kind text) := by
    intro text
    rw [List.mem_map]
    constructor
    · rintro ⟨body, hbody, rfl⟩
      obtain ⟨htext, hdigest⟩ := htextOf body hbody
      rw [← hspread _ htext, hdigest, ← hbodies]
      exact hbody
    · intro htext
      have hdeclared := scanner.mem_declaredTexts_of_areSpread htext
      rw [← hspread text hdeclared, ← hbodies] at htext
      obtain ⟨hsource, hdigest⟩ := htextOf _ htext
      exact ⟨_, htext, hdigests _ hsource _ hdeclared hdigest⟩
  refine ⟨(scanner.namesOwners_iff (fun _ _ => Iff.rfl) _).1 hdeclarers, ?_, bodies.map textOf,
    ?_, hmem, ?_⟩
  · simp only [hstrength, ← hmem, ← hbodies, List.mem_map]
    exact ⟨fun ⟨body, hbody⟩ => ⟨_, body, hbody, rfl⟩, fun ⟨_, body, hbody, _⟩ => ⟨body, hbody⟩⟩
  · -- different digests belong to different texts
    refine List.Nodup.map_on (fun a ha b hb heq => ?_) hnodup
    rw [← (htextOf a ha).2, ← (htextOf b hb).2, heq]
  · -- the groups are listed digest by digest, hence text by text
    rw [List.forall₂_map_left_iff]
    have hboth := (List.forall₂_and_left _ _).2 ⟨htextOf, hgroups⟩
    refine hboth.imp fun body names ⟨⟨htext, hdigest⟩, hnames⟩ => ?_
    rw [← hdigest] at hnames
    have hiff := scanner.namesOwners_iff
      (scanner.hasBody_iff_hasText hdigests htext entry.name entry.kind) names
    exact hiff.1 hnames

end

/-- The shared identifiers of a scan are exact. -/
theorem scan_sharedIdentifiers (hdigests : TextDigestsDiffer scanner.declaredTexts) :
    ∃ result, scanner.scan = scanner.withPool (.ok result) ∧
      ListsIdentifiers scanner.declarations result.report.sharedIdentifiers := by
  refine ⟨scanner.outcome, scanner.scan_eq, ?_, ?_, ?_⟩
  · refine (Sharing.pairwise_identifiers scanner.reportedProjects).imp fun {a b} hlt => ?_
    rwa [← Text.lt_iff_utf8Bytes_lt]
  · intro name kind
    have hspread := scanner.isSpread_occurrences_iff (p := Sharing.Occurrence.HasKey name kind)
      (q := Declaration.HasKey name kind) fun _ _ => Iff.rfl
    rw [← hspread]
    exact Sharing.exists_mem_identifiers_iff scanner.reportedProjects name kind
  · intro entry hentry
    exact scanner.describesSharing_of_describes hdigests
      (Sharing.describes_of_mem_identifiers hentry)

/-- Both projects of the workspace `nested` hold its file, so they share the function in it. -/
theorem scan_sharedIdentifiers_nested :
    (∃ result, nested.scan = .ok result ∧
      ListsIdentifiers nested.declarations result.report.sharedIdentifiers) ∧
    AreSpread nested.declarations (Declaration.HasText "f" .function "function f() {}") := by
  have htext : Analysis.parsedText? nested.system nested.settings.scan ⟨"/ws/a/m/m"⟩ =
      some "function f() {}" := by decide +kernel
  have hblocks : Block.extract nested.settings.scan.blockTextLimit "function f() {}".toList =
      [⟨"f", .function, "function f() {}", ⟨0, 14⟩⟩] := by decide +kernel
  have hdeclarations : nested.declarations = nested.detected.map fun project =>
      ⟨project, ⟨"f", .function, "function f() {}", ⟨0, 14⟩⟩⟩ := by
    rw [declarations, List.map_eq_flatMap]
    apply List.flatMap_congr
    intro project hproject
    rw [declarationsOf, files_nested project hproject, List.flatMap_singleton, htext,
      Option.elim_some, hblocks, List.map_singleton]
  have hdigests : TextDigestsDiffer nested.declaredTexts := by
    rw [declaredTexts, hdeclarations, List.map_map]
    simp [TextDigestsDiffer]
  refine ⟨nested.scan_sharedIdentifiers hdigests, ?_⟩
  rw [hdeclarations, detected_nested]
  simp [AreSpread, Declaration.HasText, Declaration.HasKey]

end Scanner

end CodeSurvey
