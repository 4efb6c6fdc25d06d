import CodeSurvey.IgnoreSet
import CodeSurvey.Json.Record
import CodeSurvey.Settings.Error

/-!
# Settings of a scan

What is looked at, what marks a project, and how much is kept. Every setting has a default and may
be missing where settings are read.
-/

namespace CodeSurvey

/-- The settings of a scan. -/
structure ScanSettings where
  /-- Names of directories that are not looked into. -/
  ignoredDirs : List String :=
    ["node_modules", ".git", ".cache", "dist", "build", "library", "packagecache"]
  /-- More such names. -/
  extraIgnoredDirs : List String := []
  /-- Names of files that are passed over, whatever their ASCII case. -/
  ignoredFiles : List String :=
    [".gitignore", ".gitattributes", "edge-functions-import-map.json", "netlify.toml",
      "debug-env.js"]
  /-- Extensions of files that are not read as text, whatever their ASCII case. -/
  binaryExtensions : List String :=
    ["png", "jpg", "jpeg", "gif", "svg", "ico", "zip", "tar", "gz", "tgz", "rar", "7z", "pdf",
      "woff", "woff2", "ttf", "eot", "mp3", "mp4", "mov", "avi"]
  /-- The size in bytes of the largest file that is read. -/
  maxFileSize : Nat := 1500000
  /-- Paths that mark the directory that holds them as a project. -/
  projectMarkers : List String :=
    ["package.json", "requirements.txt", "pyproject.toml", "Gemfile", "composer.json", ".git"]
  /-- The name of a directory that holds projects and is none. -/
  containerRoot : String := "svn"
  /-- Names of directories in such a directory that hold projects and are none. -/
  containerNames : List String := ["svn", "bitbucket"]
  /-- The name of the directory above one with serverless functions. -/
  serverlessParent : String := "netlify"
  /-- The name of the directory with serverless functions. -/
  serverlessChild : String := "functions"
  /-- The number of characters to which the normal form of a block is cut. -/
  blockTextLimit : Nat := 10000
  /-- The number of workers, if it is limited. -/
  maxParallelJobs : Option Nat := none
  /-- Whether a link is taken for what it leads to. -/
  followLinks : Bool := false
  /-- Whether version control is asked for changes. -/
  checkVcs : Bool := true
deriving DecidableEq

namespace ScanSettings

instance : Inhabited ScanSettings := ⟨{}⟩

/-- The settings with more directories to ignore, in their tidy form. -/
def withExtraIgnored (settings : ScanSettings) (names : List String) : ScanSettings :=
  { settings with extraIgnoredDirs := settings.extraIgnoredDirs ++ tidyNames names }

/-- The settings with another number of workers. -/
def withMaxParallelJobs (settings : ScanSettings) (jobs : Option Nat) : ScanSettings :=
  { settings with maxParallelJobs := jobs }

/-- The settings with version control asked or not. -/
def withVcsCheck (settings : ScanSettings) (check : Bool) : ScanSettings :=
  { settings with checkVcs := check }

/-- The directories that are not looked into. -/
def ignoreSet (settings : ScanSettings) : IgnoreSet :=
  IgnoreSet.ofNames (settings.ignoredDirs ++ settings.extraIgnoredDirs)

/-- Whether files of this name are passed over. -/
def isIgnoredFile (settings : ScanSettings) (name : String) : Bool :=
  settings.ignoredFiles.any fun ignored => Text.equalIgnoringAsciiCase ignored name

/-- Whether files with this extension are not read as text. -/
def isBinaryExtension (settings : ScanSettings) (extension : String) : Bool :=
  settings.binaryExtensions.any fun binary => Text.equalIgnoringAsciiCase binary extension

/-- The first setting that makes a scan impossible: no worker, no room for block texts, or nothing
that marks a project. -/
def fault? (settings : ScanSettings) : Option SettingsError :=
  if settings.maxParallelJobs = some 0 then
    some (.invalidOption "max_parallel_jobs" "must be positive")
  else if settings.blockTextLimit = 0 then
    some (.invalidOption "block_text_limit" "must be positive")
  else if settings.projectMarkers = [] then
    some (.invalidOption "project_markers" "at least one marker is required")
  else none

/-- The names of the settings in order. -/
def fieldNames : List String :=
  ["ignored_dirs", "extra_ignored_dirs", "ignored_files", "binary_extensions", "max_file_size",
    "project_markers", "container_root", "container_names", "serverless_parent",
    "serverless_child", "block_text_limit", "max_parallel_jobs", "follow_links", "check_vcs"]

/-- How settings are written. -/
def toJson (settings : ScanSettings) : Json :=
  .ofMembers [
    ("ignored_dirs", .ofStrings settings.ignoredDirs),
    ("extra_ignored_dirs", .ofStrings settings.extraIgnoredDirs),
    ("ignored_files", .ofStrings settings.ignoredFiles),
    ("binary_extensions", .ofStrings settings.binaryExtensions),
    ("max_file_size", .ofNat settings.maxFileSize),
    ("project_markers", .ofStrings settings.projectMarkers),
    ("container_root", .ofString settings.containerRoot),
    ("container_names", .ofStrings settings.containerNames),
    ("serverless_parent", .ofString settings.serverlessParent),
    ("serverless_child", .ofString settings.serverlessChild),
    ("block_text_limit", .ofNat settings.blockTextLimit),
    ("max_parallel_jobs", .ofOption (settings.maxParallelJobs.map .ofNat)),
    ("follow_links", .bool settings.followLinks),
    ("check_vcs", .bool settings.checkVcs)]

/-- The settings that a value spells. What is missing has its default. -/
def ofJson? (value : Json) : Option ScanSettings := do
  let record ← value.record? fieldNames
  let defaults : ScanSettings := {}
  let names := Json.list? Json.text?
  return {
    ignoredDirs := ← record.getD "ignored_dirs" names defaults.ignoredDirs
    extraIgnoredDirs := ← record.getD "extra_ignored_dirs" names defaults.extraIgnoredDirs
    ignoredFiles := ← record.getD "ignored_files" names defaults.ignoredFiles
    binaryExtensions := ← record.getD "binary_extensions" names defaults.binaryExtensions
    maxFileSize := ← record.getD "max_file_size" Json.nat? defaults.maxFileSize
    projectMarkers := ← record.getD "project_markers" names defaults.projectMarkers
    containerRoot := ← record.getD "container_root" Json.text? defaults.containerRoot
    containerNames := ← record.getD "container_names" names defaults.containerNames
    serverlessParent := ← record.getD "serverless_parent" Json.text? defaults.serverlessParent
    serverlessChild := ← record.getD "serverless_child" Json.text? defaults.serverlessChild
    blockTextLimit := ← record.getD "block_text_limit" Json.nat? defaults.blockTextLimit
    maxParallelJobs :=
      ← record.getD "max_parallel_jobs" (Json.optional? Json.nat?) defaults.maxParallelJobs
    followLinks := ← record.getD "follow_links" Json.bool? defaults.followLinks
    checkVcs := ← record.getD "check_vcs" Json.bool? defaults.checkVcs }

end ScanSettings

end CodeSurvey
