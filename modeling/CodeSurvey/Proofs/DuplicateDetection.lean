import Mathlib.Data.List.Forall2
import CodeSurvey.Proofs.FingerprintCorrect
import CodeSurvey.Proofs.ProjectScan
import CodeSurvey.Proofs.WalkOrder

/-!
# Duplicate detection is exact

A scan reports a content exactly if files of at least two projects hold it, with the names of these
projects and all its copies in the order in which they are met: project by project, and within a
project in the order of its walk.

## Key results

- `Scanner.held_candidates`: the candidates that can be read are the copies, with their contents
- `Scanner.duplicates_outcome`: the duplicates, content by content
- `Scanner.scan_duplicates`: the duplicates of a scan are exact
-/

namespace CodeSurvey

instance instLawfulBEqByteArray : LawfulBEq ByteArray where
  eq_of_beq {a b} h := by
    have hdata : (a.data == b.data) = true := h
    exact ByteArray.ext (beq_iff_eq.1 hdata)
  rfl {a} := by
    show (a.data == a.data) = true
    exact beq_self_eq_true _

/-- A file that a project brings to the search for duplicates, with its content. -/
structure Copy where
  project : Detected
  path : Path
  content : ByteArray

namespace Copy

/-- How a copy is listed: the name of its project and its path below the project. -/
def label (copy : Copy) : String :=
  copy.project.name ++ "/" ++ copy.project.root.relativeText copy.path

/-- By what a copy is compared with others. -/
def digest (copy : Copy) : Digest :=
  Digest.ofBytes copy.content

/-- The candidate that a copy is among the files to be compared. -/
def candidate (copy : Copy) : Candidate :=
  ⟨copy.project.index, copy.project.name, copy.project.root.relativeText copy.path, copy.path⟩

end Copy

/-- A content is held by at least two projects among those of some copies. -/
def IsSpread (copies : List Copy) (content : ByteArray) : Prop :=
  ∃ a ∈ copies, ∃ b ∈ copies, a.content = content ∧ b.content = content ∧ a.project ≠ b.project

/-- What a report says of a content that several projects hold. -/
structure Describes (copies : List Copy) (content : ByteArray) (entry : Duplicate) : Prop where
  projects : ∀ name, name ∈ entry.projects ↔
    ∃ copy ∈ copies, copy.content = content ∧ copy.project.name = name
  files : entry.files = (copies.filter fun copy => copy.content == content).map Copy.label

instance (copies : List Copy) (content : ByteArray) : Decidable (IsSpread copies content) :=
  inferInstanceAs (Decidable (∃ a ∈ copies, ∃ b ∈ copies,
    a.content = content ∧ b.content = content ∧ a.project ≠ b.project))

/-- The entry of a content that several projects hold. -/
def entryOf (copies : List Copy) (content : ByteArray) : Duplicate :=
  let holders := copies.filter fun copy => copy.content == content
  ⟨.ofList (holders.map fun copy => copy.project.name), holders.map Copy.label⟩

theorem describes_entryOf (copies : List Copy) (content : ByteArray) :
    Describes copies content (entryOf copies content) where
  projects name := by simp [entryOf, and_assoc]
  files := rfl

/-- Duplicates list what is spread among some copies: one entry for each content that several
projects hold and no other, in the order of the first copy of each. -/
def ListsDuplicates (copies : List Copy) (duplicates : List Duplicate) : Prop :=
  ∃ contents : List ByteArray,
    (∀ content, content ∈ contents ↔ IsSpread copies content) ∧
    (contents.Pairwise fun a b =>
      (copies.map Copy.content).idxOf a < (copies.map Copy.content).idxOf b) ∧
    List.Forall₂ (Describes copies) contents duplicates

/-- No two of the contents have one digest. -/
def DigestsDiffer (contents : List ByteArray) : Prop :=
  ∀ a ∈ contents, ∀ b ∈ contents, Digest.ofBytes a = Digest.ofBytes b → a = b

namespace FingerprintIndex

/-- The candidates that can be read, with their contents. -/
def held (system : FileSystem) (candidates : List Candidate) : List (Candidate × ByteArray) :=
  candidates.filterMap fun candidate =>
    (system.read? candidate.absolutePath).map fun content => (candidate, content)

theorem filterMap_digest? (system : FileSystem) (candidates : List Candidate) :
    candidates.filterMap (digest? system) =
      (held system candidates).map fun file => Digest.ofBytes file.2 := by
  rw [held, List.map_filterMap]
  apply List.filterMap_congr
  intro candidate _
  rw [Option.map_map]
  rfl

theorem filter_digest? (system : FileSystem) (candidates : List Candidate) (digest : Digest) :
    (candidates.filter fun candidate => digest? system candidate == some digest) =
      ((held system candidates).filter fun file => Digest.ofBytes file.2 = digest).map
        Prod.fst := by
  induction candidates with
  | nil => rfl
  | cons candidate rest ih =>
    simp only [held] at ih ⊢
    rw [List.filter_cons, ih, List.filterMap_cons]
    cases hread : system.read? candidate.absolutePath with
    | none => simp [digest?, hread]
    | some content =>
      by_cases hdigest : Digest.ofBytes content = digest <;> simp [digest?, hread, hdigest]

end FingerprintIndex

/-- Files of one content are reported exactly if they are spread over projects. -/
theorem duplicateOf?_copies {copies : List Copy} {content : ByteArray}
    (h : ∀ a ∈ copies, ∀ b ∈ copies, a.project.index = b.project.index → a.project = b.project) :
    FingerprintIndex.duplicateOf?
        ((copies.filter fun copy => copy.content == content).map Copy.candidate) =
      if IsSpread copies content then some (entryOf copies content) else none := by
  have hspread : (((copies.filter fun copy => copy.content == content).map Copy.candidate).map
      Candidate.projectIndex).eraseDups.length < 2 ↔ ¬ IsSpread copies content := by
    rw [List.length_eraseDups_lt_two_iff]
    -- positions in the list stand for projects
    simp only [List.forall_mem_map, List.mem_filter, beq_iff_eq, and_imp]
    constructor
    · rintro hall ⟨a, ha, b, hb, hacontent, hbcontent, hne⟩
      exact hne (h a ha b hb (hall a ha hacontent b hb hbcontent))
    · intro hsame a ha hacontent b hb hbcontent
      have hproject : a.project = b.project := by
        by_contra hne
        exact hsame ⟨a, ha, b, hb, hacontent, hbcontent, hne⟩
      exact congrArg Detected.index hproject
  rw [FingerprintIndex.duplicateOf?]
  by_cases hcontent : IsSpread copies content
  · rw [if_neg fun hfew => hspread.1 hfew hcontent, if_pos hcontent, List.map_map, List.map_map]
    rfl
  · rw [if_pos (hspread.2 hcontent), if_neg hcontent]

namespace Scanner

variable (scanner : Scanner)

/-- The copies that a project brings: the files of its walk whose names are not ignored and that
have between one and `maxFileSize` bytes. -/
def copiesOf (project : Detected) : List Copy :=
  (scanner.walk project.root).files.filterMap fun path =>
    (Analysis.content? scanner.system scanner.settings.scan path).map fun content =>
      ⟨project, path, content⟩

/-- The copies that all projects bring, in the order of detection. -/
def copies : List Copy :=
  scanner.detected.flatMap scanner.copiesOf

/-- The candidates that can be read are the copies. -/
theorem held_candidates :
    FingerprintIndex.held scanner.system scanner.candidates =
      scanner.copies.map fun copy => (copy.candidate, copy.content) := by
  rw [FingerprintIndex.held, candidates, scannedProjects, List.flatMap_map, List.filterMap_flatMap,
    copies, List.map_flatMap]
  congr 1
  funext project
  rw [candidates_scanProject, recordsOf, List.filter_filterMap, List.map_filterMap,
    List.filterMap_filterMap, copiesOf, List.map_filterMap]
  congr 1
  funext path
  have hheld := Analysis.held_record scanner.system scanner.settings project.root path
    (emptyDraft project)
  rw [Option.map_map]
  exact hheld

/-- Digests are reported one by one, in the order of their first copies. -/
theorem duplicates_eq_filterMap :
    scanner.outcome.report.duplicates =
      (scanner.copies.map Copy.digest).eraseDups.filterMap fun digest =>
        FingerprintIndex.duplicateOf?
          ((scanner.copies.filter fun copy => copy.digest = digest).map Copy.candidate) := by
  show scanner.fingerprints.1.duplicates = _
  rw [fingerprints, FingerprintIndex.duplicates_build, FingerprintIndex.filterMap_digest?]
  simp only [FingerprintIndex.filter_digest?, held_candidates, List.map_map, List.filter_map]
  rfl

/-- Contents with different digests are reported one by one, in the order of their first copies. -/
theorem duplicates_outcome (h : DigestsDiffer (scanner.copies.map Copy.content)) :
    scanner.outcome.report.duplicates =
      (scanner.copies.map Copy.content).eraseDups.filterMap fun content =>
        FingerprintIndex.duplicateOf?
          ((scanner.copies.filter fun copy => copy.content == content).map Copy.candidate) := by
  have hdigests : scanner.copies.map Copy.digest =
      (scanner.copies.map Copy.content).map Digest.ofBytes := by
    rw [List.map_map]
    rfl
  -- different contents have different digests, so contents can stand for their digests
  rw [duplicates_eq_filterMap, hdigests, List.eraseDups_map_of_injOn h, List.filterMap_map]
  apply List.filterMap_congr
  intro content hcontent
  rw [List.mem_eraseDups] at hcontent
  rw [Function.comp_apply]
  congr 2
  apply List.filter_congr
  intro copy hcopy
  rw [Bool.eq_iff_iff, decide_eq_true_eq, beq_iff_eq]
  exact ⟨h _ (List.mem_map_of_mem hcopy) _ hcontent, congrArg Digest.ofBytes⟩

/-- A copy is a file that the walk of a detected project meets, with what it brings. -/
theorem mem_copies_iff {copy : Copy} :
    copy ∈ scanner.copies ↔
      copy.project ∈ scanner.detected ∧ copy.path ∈ (scanner.walk copy.project.root).files ∧
        Analysis.content? scanner.system scanner.settings.scan copy.path = some copy.content := by
  simp only [copies, copiesOf, List.mem_flatMap, List.mem_filterMap, Option.map_eq_some_iff]
  constructor
  · rintro ⟨project, hproject, path, hpath, content, hcontent, rfl⟩
    exact ⟨hproject, hpath, hcontent⟩
  · rintro ⟨hproject, hpath, hcontent⟩
    exact ⟨copy.project, hproject, copy.path, hpath, copy.content, hcontent, rfl⟩

theorem project_mem_of_mem_copies {copy : Copy} (h : copy ∈ scanner.copies) :
    copy.project ∈ scanner.detected :=
  (scanner.mem_copies_iff.1 h).1

/-- The duplicates of a scan are the contents that several projects hold. -/
theorem duplicates_eq_map (h : DigestsDiffer (scanner.copies.map Copy.content)) :
    scanner.outcome.report.duplicates =
      ((scanner.copies.map Copy.content).eraseDups.filter (IsSpread scanner.copies)).map
        (entryOf scanner.copies) := by
  have hindex : ∀ a ∈ scanner.copies, ∀ b ∈ scanner.copies,
      a.project.index = b.project.index → a.project = b.project := fun a ha b hb =>
    scanner.eq_of_index_eq (scanner.project_mem_of_mem_copies ha)
      (scanner.project_mem_of_mem_copies hb)
  rw [scanner.duplicates_outcome h]
  simp only [duplicateOf?_copies hindex]
  generalize (scanner.copies.map Copy.content).eraseDups = contents
  rw [← List.filterMap_eq_map, List.filterMap_filter]
  apply List.filterMap_congr
  intro content _
  simp

/-- No file of a project is met twice. -/
theorem nodup_copies (hformed : scanner.system.root.WellFormed) :
    (scanner.copies.map fun copy => (copy.project.root, copy.path)).Nodup := by
  have hroots := scanner.nodup_map_root_detected hformed
  rw [List.Nodup, List.pairwise_map] at hroots ⊢
  rw [copies, List.pairwise_flatMap]
  have hcopy : ∀ project, ∀ copy ∈ scanner.copiesOf project, copy.project = project := by
    intro project copy hmem
    simp only [copiesOf, List.mem_filterMap, Option.map_eq_some_iff] at hmem
    obtain ⟨_, _, _, _, rfl⟩ := hmem
    rfl
  constructor
  · -- within a project, the files differ
    intro project _
    have hfiles := FileSystem.nodup_files hformed project.root scanner.settings.scan.ignoreSet
      scanner.settings.scan.followLinks
    rw [copiesOf, List.pairwise_filterMap, walk]
    refine hfiles.imp fun {path other} hne a ha b hb heq => hne ?_
    simp only [Option.map_eq_some_iff] at ha hb
    obtain ⟨_, _, rfl⟩ := ha
    obtain ⟨_, _, rfl⟩ := hb
    exact congrArg Prod.snd heq
  · -- across projects, the roots differ
    refine hroots.imp fun {project other} hne a ha b hb heq => hne ?_
    rw [← hcopy project a ha, ← hcopy other b hb]
    exact congrArg Prod.fst heq

/-- The duplicates of a scan are exact. No copy is met twice where no links are followed. -/
theorem scan_duplicates (hdigests : DigestsDiffer (scanner.copies.map Copy.content)) :
    (∃ result, scanner.scan = scanner.withPool (.ok result) ∧
      ListsDuplicates scanner.copies result.report.duplicates) ∧
    (scanner.system.root.WellFormed → scanner.settings.scan.followLinks = false →
      (scanner.copies.map fun copy => (copy.project.root, copy.path)).Nodup) := by
  refine ⟨⟨scanner.outcome, scanner.scan_eq, ?_⟩,
    fun hformed _ => scanner.nodup_copies hformed⟩
  refine ⟨(scanner.copies.map Copy.content).eraseDups.filter (IsSpread scanner.copies), ?_, ?_, ?_⟩
  · intro content
    rw [List.mem_filter, List.mem_eraseDups, decide_eq_true_eq, and_iff_right_iff_imp]
    rintro ⟨a, ha, _, _, rfl, _, _⟩
    exact List.mem_map_of_mem ha
  · exact (List.pairwise_idxOf_eraseDups _).filter _
  · rw [scanner.duplicates_eq_map hdigests, List.forall₂_map_right_iff, List.forall₂_same]
    intro content _
    exact describes_entryOf scanner.copies content

/-- Both projects of the workspace `nested` hold its file, so its content is listed. -/
theorem scan_duplicates_nested :
    ((∃ result, nested.scan = .ok result ∧ ListsDuplicates nested.copies result.report.duplicates) ∧
      (nested.copies.map fun copy => (copy.project.root, copy.path)).Nodup) ∧
    IsSpread nested.copies "function f() {}".toUTF8 := by
  have hcontent : Analysis.content? nested.system nested.settings.scan ⟨"/ws/a/m/m"⟩ =
      some "function f() {}".toUTF8 := by decide +kernel
  have hcopies : nested.copies = nested.detected.map fun project =>
      ⟨project, ⟨"/ws/a/m/m"⟩, "function f() {}".toUTF8⟩ := by
    rw [copies, List.map_eq_flatMap]
    apply List.flatMap_congr
    intro project hproject
    rw [copiesOf, files_nested project hproject]
    simp [hcontent]
  have hdigests : DigestsDiffer (nested.copies.map Copy.content) := by
    rw [hcopies, List.map_map]
    simp [DigestsDiffer]
  have hscan := nested.scan_duplicates hdigests
  refine ⟨⟨hscan.1, hscan.2 wellFormed_nested rfl⟩, ?_⟩
  rw [hcopies, detected_nested]
  simp [IsSpread]

end Scanner

end CodeSurvey
