import CodeSurvey.CommandLine.Basic
import CodeSurvey.Proofs.IgnoredNames
import CodeSurvey.Proofs.PartialSettings

/-!
# Settings under the options of a command

The options of a command are put over the settings of its file. More names to ignore go behind those
of the file. Whether version control is asked and how many workers there are is always taken from
the options, also where none is given: what the file says about them is lost.

## Key results

- `CommandLine.effectiveSettings_eq`: the settings under the options of a target
- `CommandLine.effectiveSettings_eq_override_iff`: when options replace only what they name
- `CommandLine.scannerFor_of_load`: what a scanner is made of if there is a settings file
-/

namespace CodeSurvey

namespace CommandLine

/-- The settings of a file in which the options of a target replace only what they name. -/
def override (settings : ScanSettings) (target : Target) : ScanSettings :=
  { settings with
    extraIgnoredDirs := settings.extraIgnoredDirs
      ++ (target.exclude.filter isVisibleName).map fun name => Text.lower (Text.trimString name)
    checkVcs := settings.checkVcs && !target.noVcs
    maxParallelJobs := target.jobs.or settings.maxParallelJobs }

/-- Whether version control is asked and how many workers there are is for the options to say. All
else is as the file has it, with more names to ignore. -/
theorem effectiveSettings_eq (settings : Settings) (target : Target) :
    effectiveSettings settings target =
      { settings with
        scan := { override settings.scan target with
          checkVcs := !target.noVcs
          maxParallelJobs := target.jobs } } := by
  simp only [effectiveSettings, ScanSettings.withExtraIgnored, ScanSettings.withVcsCheck,
    ScanSettings.withMaxParallelJobs, tidyNames_eq_map_filter]
  rfl

/-- The options replace only what they name exactly if the file leaves to its default what they
leave out. -/
theorem effectiveSettings_eq_override_iff (settings : Settings) (target : Target) :
    (effectiveSettings settings target).scan = override settings.scan target ↔
      (settings.scan.checkVcs = true ∨ target.noVcs = true)
        ∧ (settings.scan.maxParallelJobs = none ∨ target.jobs.isSome = true) := by
  have hchecks : (!target.noVcs) = (settings.scan.checkVcs && !target.noVcs) ↔
      settings.scan.checkVcs = true ∨ target.noVcs = true := by
    cases settings.scan.checkVcs <;> cases target.noVcs <;> simp
  have hjobs : target.jobs = target.jobs.or settings.scan.maxParallelJobs ↔
      settings.scan.maxParallelJobs = none ∨ target.jobs.isSome = true := by
    cases settings.scan.maxParallelJobs <;> cases target.jobs <;> simp
  -- all other settings agree by definition
  rw [effectiveSettings_eq, ← hchecks, ← hjobs]
  simp only [override, ScanSettings.mk.injEq, true_and]
  exact and_comm

/-- With a settings file that can be loaded, a scanner is made with the settings of the file in
which more names to ignore stand behind the others, and in which the check of version control and
the number of workers are what the options say. Only if the file leaves to their defaults those of
the two that the options do not name are these the settings that the options should give. -/
theorem scannerFor_of_load {system : FileSystem} {path : String} {settings : Settings}
    (hload : Settings.load system ⟨path⟩ = .ok settings) (status : Path → Option String)
    (target : Target) (threads : ThreadSupply) :
    scannerFor system status (some path) target threads =
        (Scanner.new system ⟨target.dir⟩ (effectiveSettings settings target)
          (.git system status) threads).mapError .scanner
      ∧ effectiveSettings settings target =
          { settings with
            scan := { settings.scan with
              extraIgnoredDirs := settings.scan.extraIgnoredDirs
                ++ (target.exclude.filter isVisibleName).map fun name =>
                    Text.lower (Text.trimString name)
              checkVcs := !target.noVcs
              maxParallelJobs := target.jobs } }
      ∧ ((effectiveSettings settings target).scan = override settings.scan target ↔
          (settings.scan.checkVcs = true ∨ target.noVcs = true)
            ∧ (settings.scan.maxParallelJobs = none ∨ target.jobs.isSome = true)) := by
  refine ⟨?_, effectiveSettings_eq settings target,
    effectiveSettings_eq_override_iff settings target⟩
  simp only [scannerFor, hload, pure_bind]
  cases Scanner.new system ⟨target.dir⟩ (effectiveSettings settings target)
    (.git system status) threads <;> rfl

/-- The text of settings that turn version control off and ask for many workers. -/
def quietText : String :=
  "\x7b\"scan\": \x7b\"check_vcs\": false, \"max_parallel_jobs\": 65535\x7d\x7d"

/-- The settings that the text spells. -/
def quiet : Settings := { scan := { checkVcs := false, maxParallelJobs := some 65535 } }

/-- A workspace with these settings in a file. -/
def quietWorkspace : FileSystem :=
  ⟨.directory [("ws", .directory [("c.json", .file quietText.toUTF8)])], ["ws"]⟩

theorem load_quietWorkspace : Settings.load quietWorkspace ⟨"/ws/c.json"⟩ = .ok quiet := by
  have hparse : Settings.parse? quietText = some quiet := by decide +kernel
  have hread : quietWorkspace.read? ⟨"/ws/c.json"⟩ = some quietText.toUTF8 := rfl
  rw [Settings.load_of_parse? hparse hread]
  rfl

/-- Options that name what the file says count. -/
theorem scannerFor_of_load_quiet :
    Settings.load quietWorkspace ⟨"/ws/c.json"⟩ = .ok quiet ∧
      (effectiveSettings quiet ⟨"/ws", [" Vendor ", "\t"], true, some 2⟩).scan =
        { quiet.scan with extraIgnoredDirs := ["vendor"], maxParallelJobs := some 2 } := by
  obtain ⟨-, heffective, -⟩ := scannerFor_of_load load_quietWorkspace (fun _ => none)
    ⟨"/ws", [" Vendor ", "\t"], true, some 2⟩ {}
  refine ⟨load_quietWorkspace, ?_⟩
  rw [heffective]
  decide +kernel

/-- Without options nothing is left of what the file says. -/
theorem effectiveSettings_ne_override_quiet :
    Settings.load quietWorkspace ⟨"/ws/c.json"⟩ = .ok quiet ∧
      override quiet.scan ⟨"/ws", [], false, none⟩ = quiet.scan ∧
      (effectiveSettings quiet ⟨"/ws", [], false, none⟩).scan = {} ∧ quiet.scan ≠ {} :=
  ⟨load_quietWorkspace, rfl, rfl, by decide⟩

end CommandLine

end CodeSurvey
