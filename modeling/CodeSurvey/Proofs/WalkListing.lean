import CodeSurvey.Proofs.TextOrder
import CodeSurvey.Proofs.WalkContents

/-!
# What a walk lists

Where every directory can be looked into that no ignored name leads to, a walk that follows no links
lists all files but those below an ignored directory, and all directories below its start but those
and the ignored ones. An ignored name does not keep a file from being listed, and the name of the
start is not looked at. What is reached by a name that is not UTF-8 is not listed. Paths are listed
step by step in the order of the bytes of their names, so a directory comes before its neighbours
whose names only go on from its own.

## Key results

- `Entry.isMet_iff_of_opens`: what a walk meets that can look into every directory it comes to
- `FileSystem.pairwise_stepBytes`: paths are listed in the order of their bytes
- `FileSystem.listsUnpruned_walk`: the files and the directories that a walk lists
-/

namespace CodeSurvey

namespace Path

/-- The steps of a path, each by its bytes. -/
def stepBytes (path : Path) : List (List UInt8) :=
  path.components.map fun step => Text.utf8Bytes step.text

/-- Paths below one path are ordered, step by step and byte by byte, as the names are that lead to
them. -/
theorem stepBytes_joinAll_lt (root : Path) {a b : List String} (ha : ∀ name ∈ a, IsPlainName name)
    (hb : ∀ name ∈ b, IsPlainName name) (h : a < b) :
    (root.joinAll a).stepBytes < (root.joinAll b).stepBytes := by
  have hbytes : a.map Text.utf8Bytes < b.map Text.utf8Bytes :=
    List.map_lt (fun x y => (Text.lt_iff_utf8Bytes_lt x y).1) h
  -- the path is a common front, so the names behind it decide
  simp only [stepBytes, components_joinAll root ha, components_joinAll root hb, List.map_append,
    List.map_map]
  exact List.append_left_lt hbytes

/-- What a directory holds comes before a neighbour whose name goes on from that of the directory,
although a slash is greater than a full stop. -/
example : stepBytes ⟨"/ws/src/a.js"⟩ < stepBytes ⟨"/ws/src.js"⟩ ∧
    Text.utf8Bytes "/ws/src.js" < Text.utf8Bytes "/ws/src/a.js" := by
  decide +kernel

end Path

namespace Entry

variable {skip : NativeText → Bool} {opens : List NativeText → Bool} {entry : Entry}

/-- A walk that can look into every directory to which no ignored name leads meets all that lies
below no ignored directory, but for links and ignored directories. -/
theorem isMet_iff_of_opens
    (hopens : ∀ names inner, entry.at? names = some (.directory inner) →
      (∀ name ∈ names, skip name = false) → opens names = true)
    (names : List NativeText) (isDirectory : Bool) :
    IsMet skip opens [] entry names isDirectory ↔
      (∃ reached, entry.at? names = some reached ∧ (∀ target, reached ≠ .link target) ∧
        reached.isDirectory = isDirectory) ∧
      LeadsOutside skip names ∧ (isDirectory = true → ∀ name ∈ names, skip name = false) := by
  refine ⟨fun h => ⟨h.found, h.outside, h.kept⟩, fun ⟨hfound, houtside, hkept⟩ =>
    ⟨hfound, fun front hfront hne => ?_, houtside, hkept⟩⟩
  -- something lies behind the names in front, so a directory stands there
  obtain ⟨reached, hreached, -⟩ := hfound
  obtain ⟨back, rfl⟩ := hfront
  rw [at?_append, Option.bind_eq_some_iff] at hreached
  obtain ⟨there, hthere, hback⟩ := hreached
  have hback_ne : back ≠ [] := by
    rintro rfl
    simp at hne
  obtain ⟨name, rest, rfl⟩ := List.exists_cons_of_ne_nil hback_ne
  cases there with
  | file content => exact absurd (isDirectory_of_at?_cons hback) Bool.false_ne_true
  | link target => exact absurd (isDirectory_of_at?_cons hback) Bool.false_ne_true
  | directory inner =>
    refine hopens front inner hthere fun step hstep => houtside step ?_
    rw [List.dropLast_append_of_ne_nil (List.cons_ne_nil name rest)]
    exact List.mem_append_left _ hstep

end Entry

namespace FileSystem

/-- Every directory at or below `root` to which no ignored name leads can be looked into. -/
def OpensAll (root : Path) (entries : List (NativeText × Entry)) (ignore : IgnoreSet) : Prop :=
  ∀ (names : List String) inner,
    (Entry.directory entries).at? (names.map .text) = some (.directory inner) →
    (∀ name ∈ names, ignore.contains name = false) → isWithinReach (root.joinAll names) = true

/-- A walk lists exactly what no ignored directory holds and has a path in UTF-8: the files,
whatever their own names are, and the directories below the start that are not ignored themselves.
Both lists are strictly ascending, path by path compared step by step in the order of bytes. -/
structure ListsUnpruned (root : Path) (entries : List (NativeText × Entry)) (ignore : IgnoreSet)
    (walk : Walk) : Prop where
  mem_files : ∀ path, path ∈ walk.files ↔ ∃ names content, root.joinNames? names = some path ∧
    (Entry.directory entries).at? names = some (.file content) ∧
      ∀ name ∈ names.dropLast, ignore.skips name = false
  mem_dirs : ∀ path, path ∈ walk.dirs ↔ ∃ names inner, names ≠ [] ∧
    root.joinNames? names = some path ∧
      (Entry.directory entries).at? names = some (.directory inner) ∧
        ∀ name ∈ names, ignore.skips name = false
  nodup_files : walk.files.Nodup
  nodup_dirs : walk.dirs.Nodup
  files_ascending : walk.files.Pairwise fun a b => a.stepBytes < b.stepBytes
  dirs_ascending : walk.dirs.Pairwise fun a b => a.stepBytes < b.stepBytes

variable {system : FileSystem} {root : Path} {entries : List (NativeText × Entry)}
  {ignore : IgnoreSet}

/-- Paths are listed in the order of their bytes. -/
theorem pairwise_stepBytes (h : system.root.WellFormed) (keep : Visit → Bool) :
    ((system.collect root ignore false keep).map root.joinAll).Pairwise
      fun a b => a.stepBytes < b.stepBytes := by
  obtain ⟨hascending, hplain⟩ := pairwise_collect h root ignore false keep
  exact List.pairwise_map.2 (hascending.imp_of_mem fun {a b} ha hb hlt =>
    Path.stepBytes_joinAll_lt root (hplain a ha) (hplain b hb) hlt)

section Listing

variable (hformed : system.root.WellFormed) (hfound : system.find? root = some (.directory entries))
  (hopens : OpensAll root entries ignore)

include hformed hfound hopens

theorem mem_visits_iff_of_opensAll (visit : Visit) :
    visit ∈ system.visits root ignore false ↔
      (∃ reached, (Entry.directory entries).at? visit.names = some reached ∧
        (∀ target, reached ≠ .link target) ∧ reached.isDirectory = visit.isDirectory) ∧
      Entry.LeadsOutside ignore.skips visit.names ∧
        (visit.isDirectory = true → ∀ name ∈ visit.names, ignore.skips name = false) := by
  rw [mem_visits_iff_isMet hformed hfound, Entry.isMet_iff_of_opens]
  intro names inner hinner hkept
  rw [opens_joinNames?]
  rintro texts rfl
  exact hopens texts inner hinner fun name hname => hkept (.text name) (List.mem_map_of_mem hname)

theorem mem_files_iff_of_opensAll (path : Path) :
    path ∈ (system.walk root ignore false).files ↔
      ∃ names content, root.joinNames? names = some path ∧
        (Entry.directory entries).at? names = some (.file content) ∧
          ∀ name ∈ names.dropLast, ignore.skips name = false := by
  dsimp only [walk]
  rw [List.mem_map]
  simp only [mem_fileNames_iff, mem_visits_iff_of_opensAll hformed hfound hopens,
    Path.joinNames?_eq_some_iff]
  constructor
  · rintro ⟨texts, ⟨⟨reached, hreached, hlink, hfile⟩, houtside, -⟩, rfl⟩
    -- a walk meets no link, and what is visited as a file is no directory
    cases reached with
    | file content => exact ⟨_, content, ⟨texts, rfl, rfl⟩, hreached, houtside⟩
    | link target => exact absurd rfl (hlink target)
    | directory inner => exact nomatch hfile
  · rintro ⟨_, content, ⟨texts, rfl, rfl⟩, hreached, houtside⟩
    exact ⟨texts, ⟨⟨_, hreached, by simp, rfl⟩, houtside, by simp⟩, rfl⟩

theorem mem_dirs_iff_of_opensAll (path : Path) :
    path ∈ (system.walk root ignore false).dirs ↔
      ∃ names inner, names ≠ [] ∧ root.joinNames? names = some path ∧
        (Entry.directory entries).at? names = some (.directory inner) ∧
          ∀ name ∈ names, ignore.skips name = false := by
  dsimp only [walk]
  rw [List.mem_map]
  simp only [mem_dirNames_iff, mem_visits_iff_of_opensAll hformed hfound hopens,
    Path.joinNames?_eq_some_iff]
  constructor
  · rintro ⟨texts, ⟨hne, ⟨reached, hreached, -, hdirectory⟩, -, hkept⟩, rfl⟩
    cases reached with
    | file content => exact nomatch hdirectory
    | link target => exact nomatch hdirectory
    | directory inner =>
      exact ⟨_, inner, by simpa using hne, ⟨texts, rfl, rfl⟩, hreached, hkept trivial⟩
  · rintro ⟨_, inner, hne, ⟨texts, rfl, rfl⟩, hreached, hkept⟩
    -- the start is visited too, by no names, and is not listed
    exact ⟨texts, ⟨by simpa using hne, ⟨_, hreached, by simp, rfl⟩,
      Entry.leadsOutside_of_forall hkept, fun _ => hkept⟩, rfl⟩

end Listing

/-- A name that is not UTF-8. -/
def oddName : NativeText := .raw [0x61, 0xFF] (by decide)

/-- A directory with an ignored directory, a link, a file whose name is that of the ignored
directory, and a file and a directory whose names are not UTF-8. -/
def builtEntries : List (NativeText × Entry) :=
  [("dist", .directory [("b.js", .file "".toUTF8)]),
    ("link", .link "src"),
    ("src", .directory [("a.js", .file "".toUTF8), ("dist", .file "".toUTF8),
      (oddName, .file "".toUTF8)]),
    (oddName, .directory [("c.js", .file "".toUTF8)])]

/-- The directory below a root of an ignored name. -/
def built : FileSystem :=
  ⟨.directory [("dist", .directory builtEntries)], []⟩

/-- What a walk of the directory lists. -/
def builtWalk : Walk :=
  built.walk ⟨"/dist"⟩ (.ofNames ["Dist"]) false

/-- All names that lead down the directory. -/
def builtNames : List (List NativeText) :=
  [[], ["dist"], ["dist", "b.js"], ["link"], ["src"], ["src", "a.js"], ["src", "dist"],
    ["src", oddName], [oddName], [oddName, "c.js"]]

theorem mem_builtNames {names : List NativeText}
    (h : (Entry.directory builtEntries).HasPath names) : names ∈ builtNames := by
  simpa [builtEntries, builtNames, Entry.hasPath_directory_iff, Entry.hasPath_file_iff,
    Entry.hasPath_link_iff, or_assoc] using h

/-- The files to which UTF-8 names lead past the ignored directory. -/
theorem path_of_builtNames_file : ∀ names ∈ builtNames,
    ((Entry.directory builtEntries).at? names).any (·.content?.isSome) = true →
    .text "dist" ∉ names.dropLast → ∀ path ∈ Path.joinNames? ⟨"/dist"⟩ names,
      path ∈ [⟨"/dist/src/a.js"⟩, ⟨"/dist/src/dist"⟩] := by
  decide +kernel

/-- The directories to which UTF-8 names lead past the ignored one. -/
theorem path_of_builtNames_directory : ∀ names ∈ builtNames,
    ((Entry.directory builtEntries).at? names).any Entry.isDirectory = true →
    .text "dist" ∉ names → names ≠ [] → ∀ path ∈ Path.joinNames? ⟨"/dist"⟩ names,
      path = ⟨"/dist/src"⟩ := by
  decide +kernel

end FileSystem

end CodeSurvey
