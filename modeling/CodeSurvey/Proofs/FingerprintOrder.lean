import CodeSurvey.Proofs.FingerprintCorrect

/-!
# The order of workers does not matter

Workers hash the candidates and put them into the groups of their digests in any order, and the
groups are listed in any order. What is grouped is the same all the same, and so is what is counted;
sorting brings the files of a group, and the groups, back into the order of the candidates.

## Key results

- `duplicates_eq_of_perm`: the duplicates do not depend on any order
- `stats_build_of_perm`: neither do the counts
- `partitions_build`: every candidate that can be read stands in one group, once
- `build_of_perm`: what holds of an index after all candidates have been taken in some order
-/

namespace CodeSurvey.FingerprintIndex

/-! ## Groups -/

theorem positionsWith_perm {members others : List (Digest × Nat)} (h : members.Perm others)
    (digest : Digest) : (positionsWith digest members).Perm (positionsWith digest others) :=
  (h.filter _).map _

/-- A group reports the same whatever the order of its positions. -/
theorem duplicate?_perm (index : FingerprintIndex) {members others : List Nat}
    (h : members.Perm others) : index.duplicate? members = index.duplicate? others := by
  have hsame : (members.mergeSort fun a b => decide (a ≤ b)) =
      others.mergeSort fun a b => decide (a ≤ b) :=
    List.mergeSort_eq_of_perm id (fun _ _ _ _ heq => heq) h
  rw [duplicate?, duplicate?, hsame]

/-- The groups report the same whatever the order in which the positions came, but for the order of
the reports. -/
theorem entries_perm (index : FingerprintIndex) {members others : List (Digest × Nat)}
    (h : members.Perm others) :
    ((groupsOf members).filterMap fun group => index.duplicate? group.2).Perm
      ((groupsOf others).filterMap fun group => index.duplicate? group.2) := by
  have hkeys : (members.map Prod.fst).eraseDups.Perm (others.map Prod.fst).eraseDups := by
    rw [List.perm_ext_iff_of_nodup (List.nodup_eraseDups _) (List.nodup_eraseDups _)]
    intro digest
    rw [List.mem_eraseDups, List.mem_eraseDups]
    exact (h.map Prod.fst).mem_iff
  rw [groupsOf, groupsOf, List.filterMap_map, List.filterMap_map]
  have hsame : ((fun group : Digest × List Nat => index.duplicate? group.2) ∘
        fun digest => (digest, positionsWith digest members)) =
      (fun group : Digest × List Nat => index.duplicate? group.2) ∘
        fun digest => (digest, positionsWith digest others) :=
    funext fun digest => index.duplicate?_perm (positionsWith_perm h digest)
  rw [hsame]
  exact hkeys.filterMap _

/-- Sorting brings the files of a group, and the groups, back into the order of the candidates. -/
theorem duplicates_eq_of_perm (system : FileSystem) (candidates : List Candidate)
    {order : List Nat} (horder : order.Perm (List.range candidates.length))
    {groups : List (Digest × List Nat)}
    (hgroups : groups.Perm (build system candidates order fun _ => false).1.groups) :
    duplicates ⟨candidates, groups⟩ =
      (build system candidates (List.range candidates.length) fun _ => false).1.duplicates := by
  rw [build_index_never] at hgroups ⊢
  have hascending := pairwise_entries
    ⟨candidates, groupsOf ((List.range candidates.length).filterMap (hashed? system candidates))⟩
    (pairwise_hashed system candidates candidates.length)
  have hperm : (groups.filterMap fun group => duplicate? ⟨candidates, groups⟩ group.2).Perm
      ((groupsOf ((List.range candidates.length).filterMap (hashed? system candidates))).filterMap
        fun group => duplicate? ⟨candidates, groups⟩ group.2) :=
    (hgroups.filterMap _).trans (entries_perm _ (horder.filterMap _))
  rw [duplicates, duplicates]
  -- both lists of reports are sorted into the same one
  exact congrArg (List.map Prod.snd)
    ((List.mergeSort_eq_of_perm_of_pairwise Prod.fst hascending hperm).trans
      (List.mergeSort_eq_of_perm_of_pairwise Prod.fst hascending (.refl _)).symm)

/-! ## Counts -/

/-- What is counted for a candidate. -/
def hashCount (system : FileSystem) (candidate : Candidate) : Stats :=
  if (digest? system candidate).isSome then { filesHashed := 1 } else { hashFailures := 1 }

/-- What one worker counts. -/
theorem hashOne_stats (system : FileSystem) (position : Nat) (index : FingerprintIndex)
    (stats : Stats) :
    (hashOne system position (index, stats)).2 =
      stats.add (.sum (index.candidates[position]?.toList.map (hashCount system))) := by
  simp only [hashOne]
  cases index.candidates[position]? with
  | none => simp
  | some candidate => cases hdigest : digest? system candidate <;> simp [hashCount, hdigest]

/-- Workers share the index and the counts, and what they add to one does not depend on the
other. -/
theorem foldl_hashOne (system : FileSystem) (candidates : List Candidate) (order : List Nat)
    (stats : Stats) :
    order.foldl (fun state position => hashOne system position state)
        (start candidates, stats) =
      (⟨candidates, groupsOf (order.filterMap (hashed? system candidates))⟩,
        stats.add (.sum ((order.filterMap fun position => candidates[position]?).map
          (hashCount system)))) := by
  induction order using List.reverseRecOn with
  | nil => simp [start, groupsOf]
  | append_singleton front position ih =>
    rw [List.foldl_append, ih, List.foldl_cons, List.foldl_nil, List.filterMap_concat,
      List.filterMap_concat, List.map_append, Stats.sum_append, ← Stats.add_assoc]
    exact Prod.ext (hashOne_index _ _ _ _ _) (hashOne_stats _ _ _ _)

/-- The workers start with no counts of their own. -/
theorem build_never (system : FileSystem) (candidates : List Candidate) (order : List Nat) :
    build system candidates order (fun _ => false) =
      (⟨candidates, groupsOf (order.filterMap (hashed? system candidates))⟩,
        .sum ((order.filterMap fun position => candidates[position]?).map (hashCount system))) := by
  rw [build]
  simp only [Bool.false_eq_true, if_false]
  rw [foldl_hashOne, Stats.zero_add]

/-- Counts made before are added to those of the workers. -/
theorem foldl_hashOne_eq_build (system : FileSystem) (candidates : List Candidate)
    (order : List Nat) (stats : Stats) :
    order.foldl (fun state position => hashOne system position state)
        (start candidates, stats) =
      ((build system candidates order fun _ => false).1,
        stats.add (build system candidates order fun _ => false).2) := by
  rw [build_never, foldl_hashOne]

/-- The counts of the workers do not depend on their order. -/
theorem stats_build_of_perm (system : FileSystem) (candidates : List Candidate) {order : List Nat}
    (horder : order.Perm (List.range candidates.length)) :
    (build system candidates order fun _ => false).2 =
      .sum (candidates.map (hashCount system)) := by
  have hvisited : (order.filterMap fun position => candidates[position]?).Perm candidates := by
    conv => rhs; rw [← List.filterMap_getElem?_range candidates]
    exact horder.filterMap _
  rw [build_never]
  exact Stats.sum_perm (hvisited.map _)

/-- Every candidate is counted as one that was hashed or as one that could not be read. -/
theorem sum_hashCount (system : FileSystem) (candidates : List Candidate) :
    Stats.sum (candidates.map (hashCount system)) =
      { filesHashed :=
          .ofNat (candidates.countP fun candidate => (digest? system candidate).isSome)
        hashFailures :=
          .ofNat (candidates.countP fun candidate => (digest? system candidate).isNone) } := by
  induction candidates with
  | nil => rfl
  | cons candidate rest ih =>
    rw [List.map_cons, Stats.sum_cons, ih, List.countP_cons, List.countP_cons, hashCount]
    cases digest? system candidate <;> simp [Stats.add, UInt64.ofNat_add, UInt64.add_comm]

theorem length_eq_hashed_add_failed (system : FileSystem) (candidates : List Candidate) :
    (candidates.countP fun candidate => (digest? system candidate).isSome) +
      (candidates.countP fun candidate => (digest? system candidate).isNone) =
        candidates.length := by
  rw [List.length_eq_countP_add_countP fun candidate => (digest? system candidate).isSome]
  congr 2
  funext candidate
  cases digest? system candidate <;> rfl

/-! ## Partition -/

/-- The groups of an index: one for each digest that a candidate has, and every candidate that can
be read stands in them once, in the group of its digest. -/
structure Partitions (index : FingerprintIndex) (system : FileSystem) : Prop where
  nodup : (index.groups.map Prod.fst).Nodup
  ne_nil : ∀ group ∈ index.groups, group.2 ≠ []
  digest : ∀ group ∈ index.groups, ∀ position ∈ group.2,
    index.candidates[position]?.bind (digest? system) = some group.1
  perm : (index.groups.flatMap Prod.snd).Perm
    ((List.range index.candidates.length).filter fun position =>
      (index.candidates[position]?.bind (digest? system)).isSome)

theorem flatMap_insertMember (digest : Digest) (position : Nat)
    (groups : List (Digest × List Nat)) :
    ((insertMember digest position groups).flatMap Prod.snd).Perm
      (groups.flatMap Prod.snd ++ [position]) := by
  induction groups with
  | nil => exact .refl _
  | cons group rest ih =>
    rw [insertMember]
    split
    · -- the position goes between its group and the rest
      rw [List.flatMap_cons, List.flatMap_cons, List.append_assoc, List.append_assoc]
      exact List.perm_append_comm.append_left _
    · rw [List.flatMap_cons, List.flatMap_cons, List.append_assoc]
      exact ih.append_left _

/-- Grouping loses no position and repeats none. -/
theorem flatMap_groupsOf (members : List (Digest × Nat)) :
    ((groupsOf members).flatMap Prod.snd).Perm (members.map Prod.snd) := by
  induction members using List.reverseRecOn with
  | nil => exact .refl _
  | append_singleton front member ih =>
    rw [← insertMember_groupsOf, List.map_append]
    exact (flatMap_insertMember _ _ _).trans (ih.append_right _)

theorem hashed?_eq_some_iff {system : FileSystem} {candidates : List Candidate} {position : Nat}
    {member : Digest × Nat} :
    hashed? system candidates position = some member ↔
      candidates[position]?.bind (digest? system) = some member.1 ∧ position = member.2 := by
  rw [hashed?]
  cases candidates[position]? with
  | none => simp
  | some candidate => cases digest? system candidate <;> simp [Prod.ext_iff]

theorem map_snd_hashed (system : FileSystem) (candidates : List Candidate) (order : List Nat) :
    (order.filterMap (hashed? system candidates)).map Prod.snd =
      order.filter fun position => (candidates[position]?.bind (digest? system)).isSome := by
  rw [List.map_filterMap, ← List.filterMap_eq_filter]
  apply List.filterMap_congr
  intro position _
  rw [hashed?, Option.guard]
  cases candidates[position]? with
  | none => rfl
  | some candidate => cases hdigest : digest? system candidate <;> simp [hdigest]

/-- Whatever the order, the groups hold what they should. -/
theorem partitions_build (system : FileSystem) (candidates : List Candidate) {order : List Nat}
    (horder : order.Perm (List.range candidates.length)) :
    (build system candidates order fun _ => false).1.Partitions system := by
  rw [build_index_never]
  have hkeys : ∀ members : List (Digest × Nat),
      (groupsOf members).map Prod.fst = (members.map Prod.fst).eraseDups := fun members => by
    simp [groupsOf, Function.comp_def]
  exact {
    nodup := by
      rw [hkeys]
      exact List.nodup_eraseDups _
    ne_nil := fun group hgroup => by
      obtain ⟨digest, hdigest, rfl⟩ := List.mem_map.1 hgroup
      exact positionsWith_ne_nil (List.mem_eraseDups.1 hdigest)
    digest := fun group hgroup position hposition => by
      obtain ⟨digest, -, rfl⟩ := List.mem_map.1 hgroup
      obtain ⟨member, hmember, rfl⟩ := List.mem_map.1 hposition
      obtain ⟨hmember, hsame⟩ := List.mem_filter.1 hmember
      obtain ⟨place, -, hplace⟩ := List.mem_filterMap.1 hmember
      obtain ⟨hdigest, rfl⟩ := hashed?_eq_some_iff.1 hplace
      rw [hdigest, beq_iff_eq.1 hsame]
    perm := by
      refine (flatMap_groupsOf _).trans ?_
      rw [map_snd_hashed]
      exact horder.filter _ }

/-! ## Reports -/

/-- A duplicate that tells of the candidates at some positions: a whole group, whose files lie in at
least two projects, in the order of the positions. -/
structure Reports (index : FingerprintIndex) (positions : List Nat) (duplicate : Duplicate) :
    Prop where
  group : ∃ group ∈ index.groups, group.2.Perm positions
  ascending : positions.Pairwise (· < ·)
  files : duplicate.files = (index.filesAt positions).map Candidate.label
  projects : duplicate.projects = .ofList ((index.filesAt positions).map Candidate.project)
  spread : 2 ≤ ((index.filesAt positions).map Candidate.projectIndex).eraseDups.length

/-- The duplicates stand in the order of their first positions, no two of which are equal. -/
def ListsInOrder (index : FingerprintIndex) (duplicates : List Duplicate) : Prop :=
  ∃ positions : List (List Nat), List.Forall₂ index.Reports positions duplicates ∧
    positions.Pairwise fun members later =>
      ∃ first ∈ members.head?, ∃ second ∈ later.head?, first < second

theorem duplicateOf?_eq_some {files : List Candidate} {duplicate : Duplicate}
    (h : duplicateOf? files = some duplicate) :
    2 ≤ (files.map Candidate.projectIndex).eraseDups.length ∧
      duplicate.files = files.map Candidate.label ∧
      duplicate.projects = .ofList (files.map Candidate.project) := by
  rw [duplicateOf?] at h
  split at h
  · cases h
  · next hspread =>
    obtain rfl := Option.some.inj h
    exact ⟨Nat.le_of_not_lt hspread, rfl, rfl⟩

/-- What a group tells that holds its positions in order. -/
theorem reports_of_eq_some (index : FingerprintIndex) {group : Digest × List Nat}
    (hgroup : group ∈ index.groups) (hascending : group.2.Pairwise (· < ·))
    {entry : Nat × Duplicate} (h : index.duplicate? group.2 = some entry) :
    entry.1 ∈ group.2.head? ∧ index.Reports group.2 entry.2 := by
  rw [index.duplicate?_of_ascending hascending] at h
  simp only [Option.bind_eq_some_iff, Option.map_eq_some_iff] at h
  obtain ⟨first, hfirst, duplicate, hfound, rfl⟩ := h
  obtain ⟨hspread, hfiles, hprojects⟩ := duplicateOf?_eq_some hfound
  exact ⟨hfirst, ⟨group, hgroup, .refl _⟩, hascending, hfiles, hprojects, hspread⟩

/-- Groups of ascending positions report in order. -/
theorem listsInOrder_of_ascending (index : FingerprintIndex) {members : List (Digest × Nat)}
    (hascending : members.Pairwise fun a b => a.2 < b.2)
    (hgroups : index.groups = groupsOf members) : index.ListsInOrder index.duplicates := by
  have hreports : ∀ group ∈ groupsOf members, ∀ entry, index.duplicate? group.2 = some entry →
      entry.1 ∈ group.2.head? ∧ index.Reports group.2 entry.2 := fun group hgroup entry hentry => by
    refine index.reports_of_eq_some (hgroups ▸ hgroup) ?_ hentry
    obtain ⟨digest, -, rfl⟩ := List.mem_map.1 hgroup
    exact pairwise_positionsWith hascending digest
  have hsorted := List.mergeSort_eq_of_perm_of_pairwise Prod.fst
    (index.pairwise_entries hascending) (.refl _)
  rw [duplicates, hgroups, hsorted]
  refine ⟨((groupsOf members).filter fun group => (index.duplicate? group.2).isSome).map Prod.snd,
    ?_, ?_⟩
  · rw [List.forall₂_map_left_iff, List.forall₂_map_right_iff]
    exact List.forall₂_filterMap fun group hgroup entry hentry =>
      (hreports group hgroup entry hentry).2
  · rw [List.pairwise_map]
    refine ((pairwise_groupsOf hascending).filter _).imp_of_mem ?_
    intro group later hgroup hlater hlt
    obtain ⟨hgroup, hsome⟩ := List.mem_filter.1 hgroup
    obtain ⟨hlater, hlaterSome⟩ := List.mem_filter.1 hlater
    obtain ⟨entry, hentry⟩ := Option.isSome_iff_exists.1 hsome
    obtain ⟨other, hother⟩ := Option.isSome_iff_exists.1 hlaterSome
    have hfirst := (hreports group hgroup entry hentry).1
    have hsecond := (hreports later hlater other hother).1
    exact ⟨entry.1, hfirst, other.1, hsecond, hlt _ hfirst _ (List.mem_of_mem_head? hsecond)⟩

/-- Groups that hold the same positions report alike. -/
theorem Reports.of_perm {index other : FingerprintIndex} {positions : List Nat}
    {duplicate : Duplicate} (h : index.Reports positions duplicate)
    (hcandidates : index.candidates = other.candidates)
    (hgroups : ∀ group ∈ index.groups, ∃ same ∈ other.groups, same.2.Perm group.2) :
    other.Reports positions duplicate := by
  have hfiles : index.filesAt positions = other.filesAt positions := by
    rw [filesAt, filesAt, hcandidates]
  obtain ⟨group, hgroup, hperm⟩ := h.group
  obtain ⟨same, hsame, hsamePerm⟩ := hgroups group hgroup
  exact {
    group := ⟨same, hsame, hsamePerm.trans hperm⟩
    ascending := h.ascending
    files := hfiles ▸ h.files
    projects := hfiles ▸ h.projects
    spread := hfiles ▸ h.spread }

theorem exists_group_perm {members others : List (Digest × Nat)} (h : members.Perm others) :
    ∀ group ∈ groupsOf members, ∃ same ∈ groupsOf others, same.2.Perm group.2 := by
  intro group hgroup
  obtain ⟨digest, hdigest, rfl⟩ := List.mem_map.1 hgroup
  have hother : digest ∈ (others.map Prod.fst).eraseDups :=
    List.mem_eraseDups.2 ((h.map Prod.fst).mem_iff.1 (List.mem_eraseDups.1 hdigest))
  exact ⟨_, List.mem_map_of_mem hother, (positionsWith_perm h digest).symm⟩

/-- Whatever the order and whatever the arrangement of the groups, the duplicates stand in the order
of the candidates. -/
theorem listsInOrder_of_perm (system : FileSystem) (candidates : List Candidate) {order : List Nat}
    (horder : order.Perm (List.range candidates.length)) {groups : List (Digest × List Nat)}
    (hgroups : groups.Perm (build system candidates order fun _ => false).1.groups) :
    ListsInOrder ⟨candidates, groups⟩ (duplicates ⟨candidates, groups⟩) := by
  have hindex := build_index_never system candidates order
  rw [duplicates_eq_of_perm system candidates horder hgroups, build_index_never]
  obtain ⟨positions, hreports, hpairwise⟩ := listsInOrder_of_ascending
    ⟨candidates, groupsOf ((List.range candidates.length).filterMap (hashed? system candidates))⟩
    (pairwise_hashed system candidates candidates.length) rfl
  refine ⟨positions, hreports.imp fun members duplicate hreport => ?_, hpairwise⟩
  -- a report tells of positions alone, which a group of any order holds too
  refine hreport.of_perm rfl fun group hgroup => ?_
  obtain ⟨same, hsame, hperm⟩ :=
    exists_group_perm (horder.symm.filterMap (hashed? system candidates)) group hgroup
  exact ⟨same, hgroups.mem_iff.2 (hindex ▸ hsame), hperm⟩

/-! ## Any order of workers -/

/-- The workers take every candidate once, in any order, and the groups are read in any order. Then
every candidate that can be read stands in one group, once, and the others in none; each is counted;
and the duplicates, which stand in the order of the candidates, are always the same. -/
theorem build_of_perm (system : FileSystem) (candidates : List Candidate) {order : List Nat}
    (horder : order.Perm (List.range candidates.length)) :
    let built := build system candidates order fun _ => false
    (built.1.candidates = candidates ∧ built.1.Partitions system) ∧
    (built.2 = {
        filesHashed :=
          .ofNat (candidates.countP fun candidate => (digest? system candidate).isSome)
        hashFailures :=
          .ofNat (candidates.countP fun candidate => (digest? system candidate).isNone) } ∧
      built.2.filesHashed + built.2.hashFailures = .ofNat candidates.length ∧
      (candidates.length < UInt64.size →
        built.2.filesHashed.toNat + built.2.hashFailures.toNat = candidates.length)) ∧
    ∀ groups, groups.Perm built.1.groups →
      duplicates ⟨candidates, groups⟩ =
        (build system candidates (List.range candidates.length) fun _ => false).1.duplicates ∧
      ListsInOrder ⟨candidates, groups⟩ (duplicates ⟨candidates, groups⟩) := by
  intro built
  have hcandidates : built.1.candidates = candidates := by
    rw [build_index_never system candidates order]
  have hcount := length_eq_hashed_add_failed system candidates
  have hstats := (stats_build_of_perm system candidates horder).trans
    (sum_hashCount system candidates)
  refine ⟨⟨hcandidates, partitions_build system candidates horder⟩, ⟨hstats, ?_, ?_⟩,
    fun groups hgroups => ⟨duplicates_eq_of_perm system candidates horder hgroups,
      listsInOrder_of_perm system candidates horder hgroups⟩⟩
  · rw [hstats, ← UInt64.ofNat_add, hcount]
  · intro hlt
    -- neither counter starts again at zero
    rw [hstats, UInt64.toNat_ofNat_of_lt' (Nat.lt_of_le_of_lt (hcount ▸ Nat.le_add_right _ _) hlt),
      UInt64.toNat_ofNat_of_lt' (Nat.lt_of_le_of_lt (hcount ▸ Nat.le_add_left _ _) hlt), hcount]

/-- Two files of one content and one that is not there, taken from the last to the first. -/
theorem build_of_perm_backwards :
    let system : FileSystem :=
      ⟨.directory [("a", .file "same".toUTF8), ("b", .file "same".toUTF8)], []⟩
    let candidates : List Candidate :=
      [⟨0, "a", "a", ⟨"/a"⟩⟩, ⟨1, "b", "b", ⟨"/b"⟩⟩, ⟨1, "b", "c", ⟨"/c"⟩⟩]
    let built := build system candidates [2, 1, 0] fun _ => false
    (built.2.filesHashed.toNat = 2 ∧ built.2.hashFailures.toNat = 1) ∧
      built.1.Partitions system ∧
      ∀ groups, groups.Perm built.1.groups →
        (duplicates ⟨candidates, groups⟩).map Duplicate.files = [["a/a", "b/b"]] := by
  intro system candidates built
  obtain ⟨⟨-, hpartitions⟩, ⟨hstats, -, -⟩, hreads⟩ :=
    build_of_perm system candidates (by decide : [2, 1, 0].Perm (List.range 3))
  refine ⟨?_, hpartitions, ?_⟩
  · rw [hstats]
    decide +kernel
  · intro groups hgroups
    rw [(hreads groups hgroups).1, duplicates_build]
    decide +kernel

end CodeSurvey.FingerprintIndex
