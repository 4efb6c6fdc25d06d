import CodeSurvey.Proofs.RecordFields
import CodeSurvey.Settings.Basic

/-!
# Settings that are given in part

A settings file need not give all settings. Those that it gives are taken from it, at the top as
well as in either part, and all others have their defaults, whatever else the file holds. Settings
that make a scan impossible are refused where they are loaded.

## Key results

- `ScanSettings.ofJson?_of_isPart`, `TechnologyTables.ofJson?_of_isPart`: either part of settings
- `Settings.ofJson?_of_isGiven`: the settings that an object gives in part
- `Settings.load_of_isGiven`: what is loaded from a file with such an object
-/

namespace CodeSurvey

open Json (exists_record?_of_isPart bind_of_eq_some nat?_ofNat optional?_ofOption list?_ofStrings
  text?_ofString bool?_bool labelTable?_ofMembers isPrintable_ofString isPrintable_ofNat
  isPrintable_ofStrings isPrintable_ofMembers)
open Json.Record (getD_of_lookup)

/-! ## Settings of a scan -/

namespace ScanSettings

/-- All numbers fit in sixty-four bits. -/
structure Fits (settings : ScanSettings) : Prop where
  maxFileSize_le : settings.maxFileSize ≤ Json.maxNat
  blockTextLimit_le : settings.blockTextLimit ≤ Json.maxNat
  maxParallelJobs_le : ∀ jobs ∈ settings.maxParallelJobs, jobs ≤ Json.maxNat

/-- The settings with the chosen ones as they are and the defaults for all others. -/
def keep (settings : ScanSettings) (chosen : String → Bool) : ScanSettings :=
  let defaults : ScanSettings := {}
  { ignoredDirs := if chosen "ignored_dirs" then settings.ignoredDirs else defaults.ignoredDirs
    extraIgnoredDirs :=
      if chosen "extra_ignored_dirs" then settings.extraIgnoredDirs else defaults.extraIgnoredDirs
    ignoredFiles :=
      if chosen "ignored_files" then settings.ignoredFiles else defaults.ignoredFiles
    binaryExtensions :=
      if chosen "binary_extensions" then settings.binaryExtensions else defaults.binaryExtensions
    maxFileSize := if chosen "max_file_size" then settings.maxFileSize else defaults.maxFileSize
    projectMarkers :=
      if chosen "project_markers" then settings.projectMarkers else defaults.projectMarkers
    containerRoot :=
      if chosen "container_root" then settings.containerRoot else defaults.containerRoot
    containerNames :=
      if chosen "container_names" then settings.containerNames else defaults.containerNames
    serverlessParent :=
      if chosen "serverless_parent" then settings.serverlessParent else defaults.serverlessParent
    serverlessChild :=
      if chosen "serverless_child" then settings.serverlessChild else defaults.serverlessChild
    blockTextLimit :=
      if chosen "block_text_limit" then settings.blockTextLimit else defaults.blockTextLimit
    maxParallelJobs :=
      if chosen "max_parallel_jobs" then settings.maxParallelJobs else defaults.maxParallelJobs
    followLinks := if chosen "follow_links" then settings.followLinks else defaults.followLinks
    checkVcs := if chosen "check_vcs" then settings.checkVcs else defaults.checkVcs }

/-- The settings that an object gives in part. -/
theorem ofJson?_of_isPart {settings : ScanSettings} (hfits : settings.Fits)
    {chosen : String → Bool} {part : Json} (h : settings.toJson.IsPart chosen part) :
    ofJson? part = some (settings.keep chosen) := by
  obtain ⟨record, hrecord, hlookup⟩ := exists_record?_of_isPart h fieldNames rfl (by decide)
  simp only [List.forall_mem_cons] at hlookup
  obtain ⟨hignoredDirs, hextraIgnoredDirs, hignoredFiles, hbinaryExtensions, hmaxFileSize,
    hprojectMarkers, hcontainerRoot, hcontainerNames, hserverlessParent, hserverlessChild,
    hblockTextLimit, hmaxParallelJobs, hfollowLinks, hcheckVcs, -⟩ := hlookup
  refine bind_of_eq_some hrecord ?_
  refine bind_of_eq_some (getD_of_lookup hignoredDirs (list?_ofStrings _) _) ?_
  refine bind_of_eq_some (getD_of_lookup hextraIgnoredDirs (list?_ofStrings _) _) ?_
  refine bind_of_eq_some (getD_of_lookup hignoredFiles (list?_ofStrings _) _) ?_
  refine bind_of_eq_some (getD_of_lookup hbinaryExtensions (list?_ofStrings _) _) ?_
  refine bind_of_eq_some (getD_of_lookup hmaxFileSize (nat?_ofNat hfits.maxFileSize_le) _) ?_
  refine bind_of_eq_some (getD_of_lookup hprojectMarkers (list?_ofStrings _) _) ?_
  refine bind_of_eq_some (getD_of_lookup hcontainerRoot (text?_ofString _) _) ?_
  refine bind_of_eq_some (getD_of_lookup hcontainerNames (list?_ofStrings _) _) ?_
  refine bind_of_eq_some (getD_of_lookup hserverlessParent (text?_ofString _) _) ?_
  refine bind_of_eq_some (getD_of_lookup hserverlessChild (text?_ofString _) _) ?_
  refine bind_of_eq_some (getD_of_lookup hblockTextLimit (nat?_ofNat hfits.blockTextLimit_le) _) ?_
  refine bind_of_eq_some
    (getD_of_lookup hmaxParallelJobs (optional?_ofOption hfits.maxParallelJobs_le) _) ?_
  refine bind_of_eq_some (getD_of_lookup hfollowLinks (bool?_bool _) _) ?_
  refine bind_of_eq_some (getD_of_lookup hcheckVcs (bool?_bool _) _) ?_
  rfl

end ScanSettings

/-! ## Technology tables -/

namespace TechnologyTables

/-- The tables with the chosen ones as they are and the defaults for all others. -/
def keep (tables : TechnologyTables) (chosen : String → Bool) : TechnologyTables :=
  let defaults : TechnologyTables := {}
  { extensions := if chosen "extensions" then tables.extensions else defaults.extensions
    basenames := if chosen "basenames" then tables.basenames else defaults.basenames
    packages := if chosen "packages" then tables.packages else defaults.packages
    manifestLabel :=
      if chosen "manifest_label" then tables.manifestLabel else defaults.manifestLabel }

/-- The tables that an object gives in part. -/
theorem ofJson?_of_isPart {tables : TechnologyTables} {chosen : String → Bool} {part : Json}
    (h : tables.toJson.IsPart chosen part) : ofJson? part = some (tables.keep chosen) := by
  obtain ⟨record, hrecord, hlookup⟩ := exists_record?_of_isPart h fieldNames rfl (by decide)
  simp only [List.forall_mem_cons] at hlookup
  obtain ⟨hextensions, hbasenames, hpackages, hmanifestLabel, -⟩ := hlookup
  refine bind_of_eq_some hrecord ?_
  refine bind_of_eq_some (getD_of_lookup hextensions (labelTable?_ofMembers _) _) ?_
  refine bind_of_eq_some (getD_of_lookup hbasenames (labelTable?_ofMembers _) _) ?_
  refine bind_of_eq_some (getD_of_lookup hpackages (labelTable?_ofMembers _) _) ?_
  refine bind_of_eq_some (getD_of_lookup hmanifestLabel (text?_ofString _) _) ?_
  rfl

end TechnologyTables

/-! ## Both parts -/

namespace Settings

/-- Which settings an object gives: which of the two parts, and which settings of either. -/
structure Choice where
  parts : String → Bool
  scan : String → Bool
  technologies : String → Bool

/-- All settings. -/
def Choice.all : Choice := ⟨fun _ => true, fun _ => true, fun _ => true⟩

/-- An object that gives the chosen ones among some settings, and otherwise only members that are
no settings, at the top as well as in either part. -/
def IsGiven (settings : Settings) (chosen : Choice) (value : Json) : Prop :=
  ∃ scan technologies, settings.scan.toJson.IsPart chosen.scan scan
    ∧ settings.technologies.toJson.IsPart chosen.technologies technologies
    ∧ (Json.ofMembers [("scan", scan), ("technologies", technologies)]).IsPart chosen.parts value

/-- The settings with the chosen ones as they are and the defaults for all others. -/
def keep (settings : Settings) (chosen : Choice) : Settings :=
  let defaults : Settings := {}
  { scan := if chosen.parts "scan" then settings.scan.keep chosen.scan else defaults.scan
    technologies :=
      if chosen.parts "technologies" then settings.technologies.keep chosen.technologies
      else defaults.technologies }

/-- Settings give all that they are. -/
theorem isGiven_toJson (settings : Settings) : settings.IsGiven .all settings.toJson :=
  ⟨settings.scan.toJson, settings.technologies.toJson, Json.isPart_self _, Json.isPart_self _,
    Json.isPart_self _⟩

/-- The settings that an object gives in part. -/
theorem ofJson?_of_isGiven {settings : Settings} (hfits : settings.scan.Fits) {chosen : Choice}
    {value : Json} (h : settings.IsGiven chosen value) :
    ofJson? value = some (settings.keep chosen) := by
  obtain ⟨scan, technologies, hscan, htechnologies, hvalue⟩ := h
  obtain ⟨record, hrecord, hlookup⟩ := exists_record?_of_isPart hvalue fieldNames rfl (by decide)
  simp only [List.forall_mem_cons] at hlookup
  obtain ⟨hscanGiven, htechnologiesGiven, -⟩ := hlookup
  refine bind_of_eq_some hrecord ?_
  refine bind_of_eq_some
    (getD_of_lookup hscanGiven (ScanSettings.ofJson?_of_isPart hfits hscan) _) ?_
  refine bind_of_eq_some
    (getD_of_lookup htechnologiesGiven (TechnologyTables.ofJson?_of_isPart htechnologies) _) ?_
  rfl

/-! ## The text of settings -/

theorem isPrintable_toJson {settings : Settings} (hfits : settings.scan.Fits) :
    settings.toJson.IsPrintable := by
  have hjobs : (Json.ofOption (settings.scan.maxParallelJobs.map .ofNat)).IsPrintable := by
    cases hgiven : settings.scan.maxParallelJobs with
    | none => exact .null
    | some jobs => exact isPrintable_ofNat (hfits.maxParallelJobs_le jobs hgiven)
  have htable : ∀ table : LabelTable, (TechnologyTables.tableToJson table).IsPrintable :=
    fun table => isPrintable_ofMembers
      (List.forall_mem_map.2 fun entry _ => isPrintable_ofString entry.2)
  have hscan : settings.scan.toJson.IsPrintable := isPrintable_ofMembers (by
    simp [isPrintable_ofStrings, isPrintable_ofString, isPrintable_ofNat hfits.maxFileSize_le,
      isPrintable_ofNat hfits.blockTextLimit_le, hjobs, Json.IsPrintable.bool])
  have htechnologies : settings.technologies.toJson.IsPrintable := isPrintable_ofMembers (by
    simp [htable, isPrintable_ofString])
  exact isPrintable_ofMembers (by simp [hscan, htechnologies])

end Settings

/-! ## Settings that make a scan impossible -/

namespace ScanSettings

/-- The settings on which a scan depends, in the order in which they are looked at, each with
whether a scan is possible with it. -/
def requirements (settings : ScanSettings) : List (String × Bool) :=
  [("max_parallel_jobs", settings.maxParallelJobs != some 0),
    ("block_text_limit", decide (0 < settings.blockTextLimit)),
    ("project_markers", !settings.projectMarkers.isEmpty)]

theorem fault?_eq_none_iff {settings : ScanSettings} :
    settings.fault? = none ↔ ∀ requirement ∈ settings.requirements, requirement.2 = true := by
  unfold fault?
  simp only [requirements, List.forall_mem_cons]
  grind

/-- The first requirement that is not met is the fault. -/
theorem exists_fault?_of_find? {settings : ScanSettings} {violated : String × Bool}
    (h : settings.requirements.find? (fun requirement => !requirement.2) = some violated) :
    ∃ reason, settings.fault? = some (.invalidOption violated.1 reason) := by
  unfold fault?
  by_cases hjobs : settings.maxParallelJobs = some 0
  · obtain rfl : ("max_parallel_jobs", false) = violated := by simpa [requirements, hjobs] using h
    exact ⟨_, if_pos hjobs⟩
  rw [if_neg hjobs]
  by_cases hlimit : settings.blockTextLimit = 0
  · obtain rfl : ("block_text_limit", false) = violated := by
      simpa [requirements, hjobs, hlimit] using h
    exact ⟨_, if_pos hlimit⟩
  rw [if_neg hlimit]
  by_cases hmarkers : settings.projectMarkers = []
  · obtain rfl : ("project_markers", false) = violated := by
      simpa [requirements, hjobs, Nat.pos_of_ne_zero hlimit, hmarkers] using h
    exact ⟨_, if_pos hmarkers⟩
  · simp [requirements, hjobs, Nat.pos_of_ne_zero hlimit, hmarkers] at h

end ScanSettings

namespace Settings

theorem fromUTF8?_toUTF8 (source : String) : String.fromUTF8? source.toUTF8 = some source := by
  simp [String.fromUTF8?, String.fromUTF8, source.isValidUTF8]

/-- What is loaded from a file that spells settings. -/
theorem load_of_parse? {settings : Settings} {source : String}
    (hparse : parse? source = some settings) {system : FileSystem} {path : Path}
    (hread : system.read? path = some source.toUTF8) :
    load system path = settings.scan.fault?.elim (.ok settings) .error := by
  simp only [load, hread, fromUTF8?_toUTF8, hparse]
  cases settings.scan.fault? <;> rfl

/-- A text that gives some settings spells these, with the defaults for all others. They are loaded
from a file with this text exactly if a scan is possible with them; otherwise the first one with
which it is not is named. What is written of settings, in either layout, spells all of them. -/
theorem load_of_isGiven {settings : Settings} (hfits : settings.scan.Fits) :
    (∀ (chosen : Choice) (value : Json) (source : String), settings.IsGiven chosen value →
      Json.parse? source = some value →
        parse? source = some (settings.keep chosen)
        ∧ ∀ (system : FileSystem) (path : Path), system.read? path = some source.toUTF8 →
          (load system path = .ok (settings.keep chosen) ↔
            ∀ requirement ∈ (settings.keep chosen).scan.requirements, requirement.2 = true)
          ∧ ∀ violated, (settings.keep chosen).scan.requirements.find?
                (fun requirement => !requirement.2) = some violated →
              ∃ reason, load system path = .error (.invalidOption violated.1 reason))
    ∧ ∀ layout : Json.Layout, parse? (settings.toJson.write layout) = some settings := by
  have hparse : ∀ (chosen : Choice) (value : Json) (source : String),
      settings.IsGiven chosen value → Json.parse? source = some value →
        parse? source = some (settings.keep chosen) := by
    intro chosen value source hvalue hsource
    rw [parse?, hsource, Option.bind_some, ofJson?_of_isGiven hfits hvalue]
  refine ⟨fun chosen value source hvalue hsource => ?_, fun layout => ?_⟩
  · have hspelt := hparse chosen value source hvalue hsource
    refine ⟨hspelt, fun system path hread => ⟨?_, fun violated hviolated => ?_⟩⟩
    · rw [load_of_parse? hspelt hread, ← ScanSettings.fault?_eq_none_iff]
      cases (settings.keep chosen).scan.fault? <;> simp
    · obtain ⟨reason, hfault⟩ := ScanSettings.exists_fault?_of_find? hviolated
      exact ⟨reason, by rw [load_of_parse? hspelt hread, hfault, Option.elim_some]⟩
  · exact hparse .all settings.toJson _ (isGiven_toJson settings)
      (Json.parse?_write (isPrintable_toJson hfits) layout)

/-- Settings without any marker, for two workers. -/
def unmarked : Settings := { scan := { projectMarkers := [], maxParallelJobs := some 2 } }

/-- The number of workers, with a remark at the top and one behind it. -/
def remarked : Json :=
  .ofMembers [("remark", .null),
    ("scan", .ofMembers [("max_parallel_jobs", .ofNat 2), ("remark", .bool true)])]

/-- A file system with one file, which gives the number of workers. -/
def remarkedFile : FileSystem :=
  ⟨.directory [("s.json", .file (remarked.write .compact).toUTF8)], []⟩

theorem load_remarkedFile :
    unmarked.scan.Fits ∧
      unmarked.IsGiven ⟨(· == "scan"), (· == "max_parallel_jobs"), fun _ => false⟩ remarked ∧
      Json.parse? (remarked.write .compact) = some remarked ∧
      remarkedFile.read? ⟨"/s.json"⟩ = some (remarked.write .compact).toUTF8 ∧
      load remarkedFile ⟨"/s.json"⟩ = .ok { scan := { maxParallelJobs := some 2 } } := by
  have hfits : unmarked.scan.Fits := ⟨by decide, by decide, by decide⟩
  have hgiven : unmarked.IsGiven ⟨(· == "scan"), (· == "max_parallel_jobs"), fun _ => false⟩
      remarked :=
    ⟨_, .ofMembers [], ⟨_, _, rfl, rfl, .of_eq rfl⟩, ⟨_, [], rfl, rfl, .of_eq rfl⟩,
      ⟨_, _, rfl, rfl, .of_eq rfl⟩⟩
  have hspelt : Json.parse? (remarked.write .compact) = some remarked :=
    Json.parse?_write (isPrintable_ofMembers (by
      simp [Json.IsPrintable.null, Json.IsPrintable.bool, isPrintable_ofMembers,
        isPrintable_ofNat (show 2 ≤ Json.maxNat by decide)])) .compact
  have hread : remarkedFile.read? ⟨"/s.json"⟩ = some (remarked.write .compact).toUTF8 := rfl
  obtain ⟨-, hload⟩ := (load_of_isGiven hfits).1 _ _ _ hgiven hspelt
  exact ⟨hfits, hgiven, hspelt, hread, (hload remarkedFile ⟨"/s.json"⟩ hread).1.2 (by decide)⟩

end Settings

end CodeSurvey
