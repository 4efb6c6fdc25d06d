import CodeSurvey.Fingerprint
import CodeSurvey.Proofs.ListLemmas

/-!
# Fingerprint index correctness

The fingerprint index groups candidates by the digests of their contents. This file says what the
index holds after any run of the workers, and which duplicates it reports when the candidates were
taken in the order of their positions.

## Key results

- `build_index`: the groups after a run are those of the positions visited, by digest
- `duplicates_build`: the duplicates are the digests that candidates of several projects have, in
  the order of their first candidates
-/

namespace CodeSurvey.FingerprintIndex

/-- The digest of the candidate at a position with that position, if its file can be read. -/
def hashed? (system : FileSystem) (candidates : List Candidate) (position : Nat) :
    Option (Digest × Nat) :=
  candidates[position]?.bind fun candidate =>
    (digest? system candidate).map fun digest => (digest, position)

/-- The positions that come with a digest, in order. -/
def positionsWith (digest : Digest) (members : List (Digest × Nat)) : List Nat :=
  (members.filter (·.1 == digest)).map Prod.snd

/-- The groups of positions by digest, in the order of the first position of each. -/
def groupsOf (members : List (Digest × Nat)) : List (Digest × List Nat) :=
  (members.map Prod.fst).eraseDups.map fun digest => (digest, positionsWith digest members)

/-- The duplicate that the files of one content are, if they lie in at least two projects. -/
def duplicateOf? (files : List Candidate) : Option Duplicate :=
  if (files.map Candidate.projectIndex).eraseDups.length < 2 then none
  else some ⟨.ofList (files.map Candidate.project), files.map Candidate.label⟩

/-! ## Groups -/

theorem positionsWith_concat (digest other : Digest) (position : Nat)
    (members : List (Digest × Nat)) :
    positionsWith digest (members ++ [(other, position)]) =
      if other = digest then positionsWith digest members ++ [position]
      else positionsWith digest members := by
  by_cases h : other = digest <;> simp [positionsWith, h]

theorem positionsWith_ne_nil {digest : Digest} {members : List (Digest × Nat)}
    (h : digest ∈ members.map Prod.fst) : positionsWith digest members ≠ [] := by
  obtain ⟨member, hmember, rfl⟩ := List.mem_map.1 h
  have hkept : member.2 ∈ positionsWith member.1 members :=
    List.mem_map.2 ⟨member, List.mem_filter.2 ⟨hmember, beq_self_eq_true _⟩, rfl⟩
  exact List.ne_nil_of_mem hkept

theorem positionsWith_eq_nil {digest : Digest} {members : List (Digest × Nat)}
    (h : digest ∉ members.map Prod.fst) : positionsWith digest members = [] := by
  rw [positionsWith, List.map_eq_nil_iff, List.filter_eq_nil_iff]
  intro member hmember heq
  exact h (beq_iff_eq.1 heq ▸ List.mem_map_of_mem hmember)

/-- A group keeps its first position. -/
theorem head?_positionsWith_concat {digest : Digest} {members : List (Digest × Nat)}
    (h : digest ∈ members.map Prod.fst) (member : Digest × Nat) :
    (positionsWith digest (members ++ [member])).head? = (positionsWith digest members).head? := by
  rw [positionsWith_concat]
  split
  · exact List.head?_append_of_ne_nil _ (positionsWith_ne_nil h)
  · rfl

/-- A position goes to the end of the group of its digest. -/
private theorem insertMember_of_mem {digest : Digest} {position : Nat} {keys : List Digest}
    (f : Digest → List Nat) (hnodup : keys.Nodup) (h : digest ∈ keys) :
    insertMember digest position (keys.map fun key => (key, f key)) =
      keys.map fun key => (key, if digest = key then f key ++ [position] else f key) := by
  induction keys with
  | nil => simp at h
  | cons key rest ih =>
    rw [List.map_cons, List.map_cons, insertMember]
    obtain ⟨hkey, hrest⟩ := List.nodup_cons.1 hnodup
    by_cases heq : key = digest
    · subst heq
      -- no later group has this digest
      have hothers : rest.map (fun other => (other, f other)) =
          rest.map fun other => (other, if key = other then f other ++ [position] else f other) :=
        List.map_congr_left fun other hother => by
          rw [if_neg (fun hsame : key = other => hkey (hsame ▸ hother))]
      rw [if_pos rfl, if_pos rfl, hothers]
    · have hmem : digest ∈ rest := (List.mem_cons.1 h).resolve_left fun hsame => heq hsame.symm
      rw [if_neg heq, if_neg fun hsame => heq hsame.symm, ih hrest hmem]

/-- A digest that is new opens a group at the end. -/
private theorem insertMember_of_not_mem {digest : Digest} {position : Nat} {keys : List Digest}
    (f : Digest → List Nat) (h : digest ∉ keys) :
    insertMember digest position (keys.map fun key => (key, f key)) =
      (keys.map fun key => (key, f key)) ++ [(digest, [position])] := by
  induction keys with
  | nil => rfl
  | cons key rest ih =>
    have hkey : key ≠ digest := fun heq => h (heq ▸ List.mem_cons_self)
    rw [List.map_cons, insertMember, if_neg hkey, List.cons_append,
      ih fun hmem => h (List.mem_cons_of_mem key hmem)]

/-- Inserting a position extends the list of members that are grouped. -/
theorem insertMember_groupsOf (digest : Digest) (position : Nat) (members : List (Digest × Nat)) :
    insertMember digest position (groupsOf members) =
      groupsOf (members ++ [(digest, position)]) := by
  have hsplit : (members ++ [(digest, position)]).map Prod.fst =
      members.map Prod.fst ++ [digest] := by simp
  rw [groupsOf, groupsOf, hsplit]
  simp only [positionsWith_concat]
  by_cases h : digest ∈ members.map Prod.fst
  · rw [List.eraseDups_concat_of_mem h]
    exact insertMember_of_mem _ (List.nodup_eraseDups _) (List.mem_eraseDups.2 h)
  · -- the position opens a group, and no other group gets it
    rw [List.eraseDups_concat_of_not_mem h, List.map_append, List.map_singleton, if_pos rfl,
      positionsWith_eq_nil h, List.nil_append,
      insertMember_of_not_mem _ fun hmem => h (List.mem_eraseDups.1 hmem)]
    congr 1
    apply List.map_congr_left
    intro key hkey
    have hne : digest ≠ key := fun heq => h (List.mem_eraseDups.1 (heq ▸ hkey))
    rw [if_neg hne]

/-- What one worker does to the index. -/
theorem hashOne_index (system : FileSystem) (candidates : List Candidate) (position : Nat)
    (members : List (Digest × Nat)) (stats : Stats) :
    (hashOne system position (⟨candidates, groupsOf members⟩, stats)).1 =
      ⟨candidates, groupsOf (members ++ (hashed? system candidates position).toList)⟩ := by
  simp only [hashOne, hashed?]
  cases candidates[position]? with
  | none => simp
  | some candidate =>
    cases hdigest : digest? system candidate with
    | none => simp [hdigest]
    | some digest => simp [hdigest, insert, insertMember_groupsOf]

/-- The index after a run holds the positions that were visited, grouped by digest. -/
theorem build_index (system : FileSystem) (candidates : List Candidate) (order : List Nat)
    (cancelled : Nat → Bool) :
    (build system candidates order cancelled).1 =
      ⟨candidates, groupsOf ((order.filter fun position => !cancelled position).filterMap
        (hashed? system candidates))⟩ := by
  -- the workers start from what has been grouped so far
  suffices ∀ members stats,
      (order.foldl (fun state position =>
        if cancelled position then state else hashOne system position state)
        (⟨candidates, groupsOf members⟩, stats)).1 =
      ⟨candidates, groupsOf (members ++ (order.filter fun position => !cancelled position).filterMap
        (hashed? system candidates))⟩ from this [] .zero
  induction order with
  | nil => simp
  | cons position rest ih =>
    intro members stats
    rw [List.foldl_cons, List.filter_cons]
    by_cases hcancelled : cancelled position = true
    · simp only [hcancelled, if_true, Bool.not_true, Bool.false_eq_true, if_false]
      exact ih members stats
    · have hstep := hashOne_index system candidates position members stats
      rw [Bool.not_eq_true] at hcancelled
      simp only [hcancelled, Bool.not_false, if_true, Bool.false_eq_true, if_false]
      rw [← Prod.eta (hashOne _ _ _), hstep, ih, List.append_assoc]
      congr 3
      rw [List.filterMap_cons]
      cases hashed? system candidates position <;> simp

/-- The index after a run in which no candidate is left out. -/
theorem build_index_never (system : FileSystem) (candidates : List Candidate) (order : List Nat) :
    (build system candidates order fun _ => false).1 =
      ⟨candidates, groupsOf (order.filterMap (hashed? system candidates))⟩ := by
  have hall : order.filter (fun _ => !false) = order := List.filter_eq_self.2 fun _ _ => rfl
  rw [build_index, hall]

/-! ## Duplicates -/

/-- Positions that are visited in ascending order are listed in ascending order. -/
theorem pairwise_hashed (system : FileSystem) (candidates : List Candidate) (length : Nat) :
    ((List.range length).filterMap (hashed? system candidates)).Pairwise
      fun a b => a.2 < b.2 := by
  refine List.pairwise_lt_range.filterMap _ fun first second hlt a ha b hb => ?_
  simp only [hashed?, Option.bind_eq_some_iff, Option.map_eq_some_iff] at ha hb
  obtain ⟨_, _, _, _, rfl⟩ := ha
  obtain ⟨_, _, _, _, rfl⟩ := hb
  exact hlt

theorem pairwise_positionsWith {members : List (Digest × Nat)}
    (h : members.Pairwise fun a b => a.2 < b.2) (digest : Digest) :
    (positionsWith digest members).Pairwise (· < ·) :=
  (h.filter _).map _ fun _ _ hlt => hlt

/-- The first position of a group lies before all positions of a later group. -/
theorem pairwise_groupsOf {members : List (Digest × Nat)}
    (h : members.Pairwise fun a b => a.2 < b.2) :
    (groupsOf members).Pairwise fun group later =>
      ∀ first ∈ group.2.head?, ∀ position ∈ later.2, first < position := by
  rw [groupsOf, List.pairwise_map]
  -- read from the right end: the last position lies behind all others
  induction members using List.reverseRecOn with
  | nil => simp
  | append_singleton members member ih =>
    rw [List.pairwise_append] at h
    obtain ⟨hfront, -, hlast⟩ := h
    obtain ⟨digest, position⟩ := member
    have hbelow : ∀ key, ∀ first ∈ (positionsWith key members).head?, first < position := by
      intro key first hfirst
      obtain ⟨member, hmember, rfl⟩ := List.mem_map.1 (List.mem_of_mem_head? hfirst)
      exact hlast member (List.mem_filter.1 hmember).1 (digest, position) List.mem_cons_self
    have hkeys : (members.map Prod.fst).eraseDups.Pairwise fun key later =>
        ∀ first ∈ (positionsWith key (members ++ [(digest, position)])).head?,
          ∀ place ∈ positionsWith later (members ++ [(digest, position)]), first < place := by
      refine (ih hfront).imp_of_mem fun {key later} hkey _ hlt first hfirst place hplace => ?_
      rw [head?_positionsWith_concat (List.mem_eraseDups.1 hkey)] at hfirst
      rw [positionsWith_concat] at hplace
      split at hplace
      · -- the later group gets the last position
        rcases List.mem_append.1 hplace with hplace | hplace
        · exact hlt first hfirst place hplace
        · exact List.mem_singleton.1 hplace ▸ hbelow key first hfirst
      · exact hlt first hfirst place hplace
    rw [List.map_append, List.map_singleton]
    by_cases hmem : digest ∈ members.map Prod.fst
    · rw [List.eraseDups_concat_of_mem hmem]
      exact hkeys
    · -- a new group holds the last position only
      rw [List.eraseDups_concat_of_not_mem hmem, List.pairwise_append]
      refine ⟨hkeys, List.pairwise_singleton _ _, ?_⟩
      intro key hkey later hlater first hfirst place hplace
      obtain rfl := List.mem_singleton.1 hlater
      rw [positionsWith_concat, if_pos rfl, positionsWith_eq_nil hmem, List.nil_append] at hplace
      rw [head?_positionsWith_concat (List.mem_eraseDups.1 hkey)] at hfirst
      exact List.mem_singleton.1 hplace ▸ hbelow key first hfirst

/-- What an ascending group reports: its first position and the duplicate that its files are. -/
theorem duplicate?_of_ascending (index : FingerprintIndex) {members : List Nat}
    (h : members.Pairwise (· < ·)) :
    index.duplicate? members =
      members.head?.bind fun first =>
        (duplicateOf? (index.filesAt members)).map fun duplicate => (first, duplicate) := by
  have hsorted : members.mergeSort (fun a b => decide (a ≤ b)) = members :=
    List.mergeSort_of_pairwise (h.imp fun hlt => decide_eq_true (Nat.le_of_lt hlt))
  rw [duplicate?, hsorted, duplicateOf?]
  cases members.head? with
  | none => split <;> rfl
  | some first => split <;> rfl

theorem duplicate?_of_mem_groupsOf (index : FingerprintIndex) {members : List (Digest × Nat)}
    (h : members.Pairwise fun a b => a.2 < b.2) :
    ∀ group ∈ groupsOf members, index.duplicate? group.2 =
      group.2.head?.bind fun first =>
        (duplicateOf? (index.filesAt group.2)).map fun duplicate => (first, duplicate) := by
  intro group hgroup
  obtain ⟨digest, _, rfl⟩ := List.mem_map.1 hgroup
  exact index.duplicate?_of_ascending (pairwise_positionsWith h digest)

/-- The groups report in the order of their first positions already. -/
theorem pairwise_entries (index : FingerprintIndex) {members : List (Digest × Nat)}
    (h : members.Pairwise fun a b => a.2 < b.2) :
    ((groupsOf members).filterMap fun group => index.duplicate? group.2).Pairwise
      fun a b => a.1 < b.1 := by
  rw [List.filterMap_congr (index.duplicate?_of_mem_groupsOf h), List.pairwise_filterMap]
  refine (pairwise_groupsOf h).imp fun {group later} hlt a ha b hb => ?_
  simp only [Option.bind_eq_some_iff, Option.map_eq_some_iff] at ha hb
  obtain ⟨first, hfirst, _, _, rfl⟩ := ha
  obtain ⟨second, hsecond, _, _, rfl⟩ := hb
  have hmem := List.mem_of_mem_head? (Option.mem_def.2 hsecond)
  exact hlt first (Option.mem_def.2 hfirst) second hmem

/-- The files at the positions with a digest are the candidates with that digest. -/
theorem filesAt_positionsWith (system : FileSystem) (candidates : List Candidate)
    (groups : List (Digest × List Nat)) (digest : Digest) :
    filesAt ⟨candidates, groups⟩ (positionsWith digest
      ((List.range candidates.length).filterMap (hashed? system candidates))) =
      candidates.filter fun candidate => digest? system candidate == some digest := by
  conv => rhs; rw [← List.filterMap_getElem?_range candidates]
  rw [filesAt, positionsWith, List.filterMap_map, List.filter_filterMap, List.filterMap_filterMap,
    List.filter_filterMap]
  apply List.filterMap_congr
  intro position _
  simp only [hashed?]
  cases hcandidate : candidates[position]? with
  | none => simp
  | some candidate =>
    cases hdigest : digest? system candidate with
    | none => simp [hdigest, Option.filter_some]
    | some other =>
      by_cases heq : other = digest <;>
        simp [hdigest, hcandidate, heq, Option.filter_some]

/-- The digests that are found at the positions of all candidates are those of the candidates. -/
theorem map_fst_hashed (system : FileSystem) (candidates : List Candidate) :
    ((List.range candidates.length).filterMap (hashed? system candidates)).map Prod.fst =
      candidates.filterMap (digest? system) := by
  conv => rhs; rw [← List.filterMap_getElem?_range candidates]
  rw [List.map_filterMap, List.filterMap_filterMap]
  apply List.filterMap_congr
  intro position _
  simp only [hashed?]
  cases candidates[position]? with
  | none => rfl
  | some candidate => cases hdigest : digest? system candidate <;> simp [hdigest]

/-- Candidates that were taken in the order of their positions: the duplicates are the digests of
candidates of several projects, in the order of their first candidates. -/
theorem duplicates_build (system : FileSystem) (candidates : List Candidate) :
    (build system candidates (List.range candidates.length) fun _ => false).1.duplicates =
      (candidates.filterMap (digest? system)).eraseDups.filterMap fun digest =>
        duplicateOf?
          (candidates.filter fun candidate => digest? system candidate == some digest) := by
  have hindex := build_index_never system candidates (List.range candidates.length)
  have hascending := pairwise_hashed system candidates candidates.length
  have hkeys := map_fst_hashed system candidates
  have hfiles := filesAt_positionsWith system candidates
  rw [hindex, duplicates]
  generalize (List.range candidates.length).filterMap (hashed? system candidates) = members at *
  have hentry := duplicate?_of_mem_groupsOf ⟨candidates, groupsOf members⟩ hascending
  have hsorted := (pairwise_entries ⟨candidates, groupsOf members⟩ hascending).imp fun hlt =>
    decide_eq_true (Nat.le_of_lt hlt)
  -- sorting the reports changes nothing
  rw [List.mergeSort_of_pairwise hsorted, List.map_filterMap,
    List.filterMap_congr fun group hgroup => congrArg (Option.map Prod.snd) (hentry group hgroup),
    groupsOf, List.filterMap_map, ← hkeys]
  apply List.filterMap_congr
  intro digest hdigest
  -- a digest that is found has a first position, so its files alone decide
  have hne := positionsWith_ne_nil (List.mem_eraseDups.1 hdigest)
  obtain ⟨first, hfirst⟩ := Option.isSome_iff_exists.1 (List.isSome_head?.2 hne)
  simp only [Function.comp_apply]
  rw [hfirst, hfiles, Option.bind_some, Option.map_map]
  exact Option.map_id'

end CodeSurvey.FingerprintIndex
