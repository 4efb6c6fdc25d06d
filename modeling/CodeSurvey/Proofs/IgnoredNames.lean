import CodeSurvey.Proofs.LowerForms
import CodeSurvey.Settings.Scan

/-!
# Names of ignored directories

Names of directories to ignore are kept without the white space around them and in lower case. Doing
so twice changes nothing, so it does not matter by which way a name comes into the set, and a
directory is ignored exactly if its name is one of the given names but for case and white space
around those.

## Key results

- `tidyName_tidyName`: a tidy name stays as it is
- `tidyNames_eq_map_filter`: the tidy forms of some names
- `IgnoreSet.contains_ofNames_iff`: which directories are ignored
- `ScanSettings.takesUp_ignoreSet`: the set takes up the names of all settings, in any order
-/

namespace CodeSurvey

/-- Whether a name shows a character. -/
def isVisibleName (name : String) : Bool :=
  name.toList.any fun c => !Text.isBlank c

theorem tidyName_eq_empty_iff (name : String) :
    tidyName name = "" ↔ isVisibleName name = false := by
  have htrim : tidyName name = "" ↔ Text.trim name.toList = [] :=
    (Text.lower_eq_empty_iff _).trans String.ofList_eq_empty_iff
  simp only [htrim, Text.trim_eq_nil_iff, isVisibleName, List.any_eq_false, Bool.not_eq_true',
    Bool.not_eq_false]

/-- Names that show no character are left out. -/
theorem tidyNames_eq_map_filter (names : List String) :
    tidyNames names = (names.filter isVisibleName).map tidyName := by
  have hkept : ∀ name ∈ names, (tidyName name != "") = isVisibleName name := by
    intro name _
    rw [Bool.eq_iff_iff, bne_iff_ne, ne_eq, tidyName_eq_empty_iff, Bool.not_eq_false]
  rw [tidyNames, List.filter_map]
  simp only [Function.comp_def]
  rw [List.filter_congr hkept]

/-- A tidy name stays as it is. -/
theorem tidyName_tidyName (name : String) : tidyName (tidyName name) = tidyName name := by
  unfold tidyName
  rw [Text.trimString_lower, Text.lower_lower]

/-- Names that are tidy stay as they are, and none is blank. -/
theorem tidyNames_tidyNames (names : List String) :
    tidyNames (tidyNames names) = tidyNames names := by
  have hmap : (tidyNames names).map tidyName = tidyNames names := by
    rw [tidyNames_eq_map_filter, List.map_map]
    exact List.map_congr_left fun name _ => tidyName_tidyName name
  show ((tidyNames names).map tidyName).filter (· != "") = tidyNames names
  rw [hmap, tidyNames, List.filter_filter]
  simp only [Bool.and_self]

theorem tidyNames_append (names more : List String) :
    tidyNames (names ++ more) = tidyNames names ++ tidyNames more := by
  simp [tidyNames]

theorem mem_tidyNames_iff {name : String} {names : List String} :
    name ∈ tidyNames names ↔ ∃ raw ∈ names, isVisibleName raw = true ∧ tidyName raw = name := by
  simp only [tidyNames_eq_map_filter, List.mem_map, List.mem_filter, and_assoc]

/-- Tidy names are in lower case. -/
theorem lower_of_mem_tidyNames {name : String} {names : List String} (h : name ∈ tidyNames names) :
    Text.lower name = name := by
  obtain ⟨raw, -, -, rfl⟩ := mem_tidyNames_iff.1 h
  exact Text.lower_lower _

/-! ## The set -/

namespace IgnoreSet

/-- A set takes up some names: a directory is ignored exactly if its name is one of them but for
case and white space at their ends. Looking it up as it is finds nothing that is not found in lower
case, and so its own case does not matter. -/
structure TakesUp (set : IgnoreSet) (names : List String) : Prop where
  contains_iff : ∀ name, set.contains name = true ↔
    ∃ raw ∈ names, isVisibleName raw = true ∧
      Text.lower (Text.trimString raw) = Text.lower name
  lower_mem : ∀ name ∈ set.names, Text.lower name ∈ set.names
  contains_lower : ∀ name, set.contains (Text.lower name) = set.contains name

/-- A directory is ignored exactly if its name in lower case is in the set. -/
theorem contains_ofNames_iff (names : List String) (name : String) :
    (ofNames names).contains name = true ↔ Text.lower name ∈ tidyNames names := by
  rw [contains_ofNames, Bool.or_eq_true, decide_eq_true_eq, decide_eq_true_eq]
  -- a name that is found as it is has its lower-case form in itself
  refine or_iff_right_of_imp fun hdirect => ?_
  rwa [lower_of_mem_tidyNames hdirect]

theorem takesUp_ofNames (names : List String) : (ofNames names).TakesUp names where
  contains_iff name := by
    rw [contains_ofNames_iff, mem_tidyNames_iff]
    rfl
  lower_mem name h := by
    rwa [lower_of_mem_tidyNames (NameSet.mem_ofList.1 h)]
  contains_lower name := by
    rw [Bool.eq_iff_iff, contains_ofNames_iff, contains_ofNames_iff, Text.lower_lower]

/-- The order of the names and repetitions do not matter. -/
theorem ofNames_eq_of_mem_iff {names others : List String}
    (h : ∀ name, name ∈ names ↔ name ∈ others) : ofNames names = ofNames others := by
  have hnames : NameSet.ofList (tidyNames names) = NameSet.ofList (tidyNames others) := by
    apply NameSet.eq_of_mem_iff
    intro name
    simp only [NameSet.mem_ofList, mem_tidyNames_iff, h]
  exact congrArg IgnoreSet.mk hnames

end IgnoreSet

/-! ## The settings -/

namespace ScanSettings

/-- The names of directories to ignore that settings hold and that are added to them later. -/
def namesToIgnore (settings : ScanSettings) (added : List (List String)) : List String :=
  settings.ignoredDirs ++ (settings.extraIgnoredDirs ++ added.flatten)

/-- Adding names goes behind the others, in their tidy form. -/
theorem foldl_withExtraIgnored (settings : ScanSettings) (added : List (List String)) :
    added.foldl withExtraIgnored settings =
      { settings with
        extraIgnoredDirs := settings.extraIgnoredDirs ++ tidyNames added.flatten } := by
  induction added generalizing settings with
  | nil => simp [tidyNames]
  | cons names rest ih =>
    rw [List.foldl_cons, ih, List.flatten_cons, tidyNames_append]
    simp [withExtraIgnored]

/-- It does not matter whether names are added later or stand in the settings from the start. -/
theorem ignoreSet_foldl_withExtraIgnored (settings : ScanSettings) (added : List (List String)) :
    (added.foldl withExtraIgnored settings).ignoreSet =
      IgnoreSet.ofNames (settings.namesToIgnore added) := by
  rw [foldl_withExtraIgnored]
  simp only [ignoreSet, namesToIgnore, IgnoreSet.ofNames, tidyNames_append, tidyNames_tidyNames]

/-- The set of the directories to ignore takes up the names in the settings and all that are added
to them, as if these had stood in the settings from the start, and it is the same for all settings
with these names, in whatever order and however often. -/
theorem takesUp_ignoreSet (settings : ScanSettings) (added : List (List String)) :
    (added.foldl withExtraIgnored settings).ignoreSet.TakesUp (settings.namesToIgnore added) ∧
      (added.foldl withExtraIgnored settings).ignoreSet =
        { settings with
          extraIgnoredDirs := settings.extraIgnoredDirs ++ added.flatten }.ignoreSet ∧
      ∀ (other : ScanSettings) (more : List (List String)),
        (∀ name, name ∈ other.namesToIgnore more ↔ name ∈ settings.namesToIgnore added) →
          (more.foldl withExtraIgnored other).ignoreSet =
            (added.foldl withExtraIgnored settings).ignoreSet := by
  rw [ignoreSet_foldl_withExtraIgnored]
  refine ⟨IgnoreSet.takesUp_ofNames _, rfl, fun other more hsame => ?_⟩
  rw [ignoreSet_foldl_withExtraIgnored]
  exact IgnoreSet.ofNames_eq_of_mem_iff hsame

/-- Settings with names in capitals and between white space. -/
def untidy : ScanSettings := { ignoredDirs := ["dist"], extraIgnoredDirs := [" Vendor\t"] }

/-- Settings with some of the same names, one of them twice. -/
def reordered : ScanSettings := { ignoredDirs := ["ΟΔΟΣ ", " ", "dist"], extraIgnoredDirs := [] }

theorem takesUp_ignoreSet_reordered :
    (∀ name, name ∈ reordered.namesToIgnore [[" Vendor\t"], ["dist"]] ↔
        name ∈ untidy.namesToIgnore [["ΟΔΟΣ ", " "]]) ∧
      ((reordered.withExtraIgnored [" Vendor\t"]).withExtraIgnored ["dist"]).ignoreSet =
        (untidy.withExtraIgnored ["ΟΔΟΣ ", " "]).ignoreSet ∧
      (untidy.withExtraIgnored ["ΟΔΟΣ ", " "]).ignoreSet.contains "Οδος" = true := by
  obtain ⟨htakesUp, -, hsame⟩ := takesUp_ignoreSet untidy [["ΟΔΟΣ ", " "]]
  have hnames : ∀ name, name ∈ reordered.namesToIgnore [[" Vendor\t"], ["dist"]] ↔
      name ∈ untidy.namesToIgnore [["ΟΔΟΣ ", " "]] := by
    intro name
    simp only [namesToIgnore, reordered, untidy, List.flatten_cons, List.flatten_nil,
      List.mem_append, List.mem_cons, List.not_mem_nil]
    tauto
  have hlower : Text.lower (Text.trimString "ΟΔΟΣ ") = Text.lower "Οδος" := by decide +kernel
  have hgiven : "ΟΔΟΣ " ∈ untidy.namesToIgnore [["ΟΔΟΣ ", " "]] := by
    simp [namesToIgnore]
  have hequal := hsame reordered [[" Vendor\t"], ["dist"]] hnames
  simp only [List.foldl_cons, List.foldl_nil] at htakesUp hequal
  exact ⟨hnames, hequal,
    (htakesUp.contains_iff "Οδος").2 ⟨"ΟΔΟΣ ", hgiven, by decide +kernel, hlower⟩⟩

end ScanSettings

end CodeSurvey
