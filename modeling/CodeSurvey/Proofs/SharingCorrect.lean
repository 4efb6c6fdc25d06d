import Mathlib.Data.List.Forall2
import CodeSurvey.Sharing
import CodeSurvey.Proofs.ListLemmas

/-!
# Shared identifiers correctness

Blocks of one name and kind form a group, and within it those of one text a smaller one. This file
says which groups there are, whatever the projects are, and what the entry of a group says.

## Key results

- `mem_iff_of_mem_byKey` / `mem_iff_of_mem_byBody`: what the groups hold
- `pairwise_identifiers`: the identifiers are listed by name and then by kind
- `exists_mem_identifiers_iff`: which identifiers are listed
- `exists_bodies_of_mem_identifiers`: the overlap groups of an entry and their order
- `describes_of_mem_identifiers`: what the entry of an identifier says
-/

namespace CodeSurvey.Sharing

/-- Some projects hold an occurrence with a property, and not all of these are one project. -/
def IsSpread (all : List Occurrence) (p : Occurrence → Prop) : Prop :=
  ∃ a ∈ all, ∃ b ∈ all, p a ∧ p b ∧ a.project ≠ b.project

namespace Occurrence

/-- An occurrence has this name and kind. -/
def HasKey (name : String) (kind : BlockKind) (occurrence : Occurrence) : Prop :=
  occurrence.name = name ∧ occurrence.kind = kind

/-- An occurrence has this name and kind and this text. -/
def HasBody (name : String) (kind : BlockKind) (body : Digest) (occurrence : Occurrence) : Prop :=
  occurrence.HasKey name kind ∧ occurrence.body = body

end Occurrence

/-- A set holds the names of the projects with an occurrence that has a property. -/
def NamesOwners (projects : List Project) (p : Occurrence → Prop) (names : NameSet) : Prop :=
  ∀ name, name ∈ names ↔ ∃ occurrence ∈ occurrences projects,
    p occurrence ∧ (projects[occurrence.project]?).map Project.name = some name

/-- What the entry of an identifier says: who declares it, and which texts of it are shared. -/
structure Describes (projects : List Project) (entry : SharedIdentifier) : Prop where
  declarers : NamesOwners projects (Occurrence.HasKey entry.name entry.kind) entry.projects
  strength : entry.strength = .hard ↔
    ∃ body, IsSpread (occurrences projects) (Occurrence.HasBody entry.name entry.kind body)
  groups : ∃ bodies : List Digest, bodies.Nodup ∧
    (∀ body, body ∈ bodies ↔
      IsSpread (occurrences projects) (Occurrence.HasBody entry.name entry.kind body)) ∧
    List.Forall₂ (fun body => NamesOwners projects (Occurrence.HasBody entry.name entry.kind body))
      bodies entry.hardOverlapGroups

/-- The occurrences, grouped by name and kind. -/
def byKey (all : List Occurrence) : List (List Occurrence) :=
  (all.mergeSort Occurrence.keyLe).splitBy Occurrence.sameKey

/-- The occurrences, grouped by text. -/
def byBody (all : List Occurrence) : List (List Occurrence) :=
  (all.mergeSort Occurrence.bodyLe).splitBy fun a b => a.body == b.body

/-! ## Orders -/

namespace Occurrence

theorem rank_inj {a b : BlockKind} (h : a.rank = b.rank) : a = b := by
  cases a <;> cases b <;> first | rfl | exact absurd h (by decide)

theorem keyLe_iff (a b : Occurrence) :
    a.keyLe b = true ↔ a.name < b.name ∨ a.name = b.name ∧ a.kind.rank ≤ b.kind.rank := by
  simp [keyLe]

theorem sameKey_iff (a b : Occurrence) :
    a.sameKey b = true ↔ a.name = b.name ∧ a.kind = b.kind := by
  simp [sameKey]

theorem keyLe_trans (a b c : Occurrence) (hab : a.keyLe b = true) (hbc : b.keyLe c = true) :
    a.keyLe c = true := by
  rw [keyLe_iff] at hab hbc ⊢
  rcases hab with hab | ⟨hab, hrank⟩
  · rcases hbc with hbc | ⟨hbc, -⟩
    · exact Or.inl (String.lt_trans hab hbc)
    · exact Or.inl (hbc ▸ hab)
  · rcases hbc with hbc | ⟨hbc, hrank'⟩
    · exact Or.inl (hab ▸ hbc)
    · exact Or.inr ⟨hab.trans hbc, Nat.le_trans hrank hrank'⟩

theorem keyLe_total (a b : Occurrence) : (a.keyLe b || b.keyLe a) = true := by
  rw [Bool.or_eq_true, keyLe_iff, keyLe_iff]
  rcases Std.lt_trichotomy a.name b.name with hlt | heq | hlt
  · exact Or.inl (Or.inl hlt)
  · rcases Nat.le_total a.kind.rank b.kind.rank with hrank | hrank
    · exact Or.inl (Or.inr ⟨heq, hrank⟩)
    · exact Or.inr (Or.inr ⟨heq.symm, hrank⟩)
  · exact Or.inr (Or.inl hlt)

theorem sameKey_iff_keyLe (a b : Occurrence) :
    a.sameKey b = true ↔ a.keyLe b = true ∧ b.keyLe a = true := by
  rw [sameKey_iff, keyLe_iff, keyLe_iff]
  constructor
  · rintro ⟨hname, hkind⟩
    exact ⟨Or.inr ⟨hname, by rw [hkind]⟩, Or.inr ⟨hname.symm, by rw [hkind]⟩⟩
  · rintro ⟨hab, hba⟩
    -- a name that comes before itself is impossible, so the names agree and the ranks decide
    rcases hab with hab | ⟨hname, hrank⟩
    · rcases hba with hba | ⟨hname, -⟩
      · exact absurd (String.lt_trans hab hba) (String.lt_irrefl _)
      · exact absurd (hname ▸ hab) (String.lt_irrefl _)
    · rcases hba with hba | ⟨-, hrank'⟩
      · exact absurd (hname ▸ hba) (String.lt_irrefl _)
      · exact ⟨hname, rank_inj (Nat.le_antisymm hrank hrank')⟩

theorem bodyLe_iff (a b : Occurrence) :
    a.bodyLe b = true ↔ a.body.bytes ≤ b.body.bytes := by
  simp [bodyLe, Digest.precedes]

theorem bodyLe_trans (a b c : Occurrence) (hab : a.bodyLe b = true) (hbc : b.bodyLe c = true) :
    a.bodyLe c = true := by
  rw [bodyLe_iff] at hab hbc ⊢
  exact List.le_trans hab hbc

theorem bodyLe_total (a b : Occurrence) : (a.bodyLe b || b.bodyLe a) = true := by
  rw [Bool.or_eq_true, bodyLe_iff, bodyLe_iff]
  exact List.le_total _ _

theorem body_eq_iff_bodyLe (a b : Occurrence) :
    (a.body == b.body) = true ↔ a.bodyLe b = true ∧ b.bodyLe a = true := by
  rw [beq_iff_eq, bodyLe_iff, bodyLe_iff]
  constructor
  · intro heq
    rw [heq]
    exact ⟨List.le_refl _, List.le_refl _⟩
  · rintro ⟨hab, hba⟩
    have hbytes := List.le_antisymm hab hba
    cases hbody : a.body
    cases hother : b.body
    simp only [hbody, hother] at hbytes
    subst hbytes
    rfl

end Occurrence

/-! ## Groups -/

section Groups

variable {all group : List Occurrence} {a b : Occurrence}

theorem mem_iff_of_mem_byKey (hgroup : group ∈ byKey all) (ha : a ∈ group) :
    b ∈ group ↔ b ∈ all ∧ a.name = b.name ∧ a.kind = b.kind := by
  rw [List.mem_iff_of_mem_splitBy_mergeSort Occurrence.keyLe_trans Occurrence.keyLe_total
    Occurrence.sameKey_iff_keyLe hgroup ha, Occurrence.sameKey_iff]

theorem mem_iff_of_mem_byBody (hgroup : group ∈ byBody all) (ha : a ∈ group) :
    b ∈ group ↔ b ∈ all ∧ a.body = b.body := by
  rw [List.mem_iff_of_mem_splitBy_mergeSort Occurrence.bodyLe_trans Occurrence.bodyLe_total
    Occurrence.body_eq_iff_bodyLe hgroup ha, beq_iff_eq]

/-- The occurrences of a group lie in several projects. -/
theorem one_lt_length_owners_iff :
    1 < (owners group).length ↔ ∃ a ∈ group, ∃ b ∈ group, a.project ≠ b.project := by
  have hfew := List.length_eraseDups_lt_two_iff (group.map Occurrence.project)
  rw [owners, ← not_iff_not, not_lt, ← Nat.lt_succ_iff]
  simpa [List.forall_mem_map] using hfew

theorem mem_namesAt_owners {projects : List Project} {name : String} :
    name ∈ namesAt projects (owners group) ↔
      ∃ a ∈ group, (projects[a.project]?).map Project.name = some name := by
  simp [namesAt, owners]

end Groups

/-! ## Texts -/

/-- The digest of the texts of a group of occurrences with one text. -/
def commonBody (group : List Occurrence) : Digest :=
  (group.head?.map Occurrence.body).getD (.ofText "")

theorem commonBody_eq {all group : List Occurrence} (hgroup : group ∈ byBody all) {a : Occurrence}
    (ha : a ∈ group) : commonBody group = a.body := by
  cases group with
  | nil => exact absurd ha List.not_mem_nil
  | cons first rest => exact ((mem_iff_of_mem_byBody hgroup List.mem_cons_self).1 ha).2

/-- The texts that several projects share, of the occurrences of one group. -/
def sharedBodies (group : List Occurrence) : List Digest :=
  ((byBody group).filter fun same => 1 < (owners same).length).map commonBody

/-- The shared texts are listed in the order of their digests, none of them twice. -/
theorem pairwise_sharedBodies (group : List Occurrence) :
    (sharedBodies group).Pairwise fun a b => a.precedes b = true := by
  have hruns := List.pairwise_splitBy_mergeSort (l := group) Occurrence.bodyLe_trans
    Occurrence.bodyLe_total Occurrence.body_eq_iff_bodyLe
  refine List.pairwise_map.2 <| (hruns.filter _).imp_of_mem
    fun {same other} hsame hother hlt => ?_
  have hsame := (List.mem_filter.1 hsame).1
  have hother := (List.mem_filter.1 hother).1
  -- any occurrences stand for their groups, and those of different groups are not equal
  obtain ⟨a, ha⟩ := List.exists_mem_of_ne_nil same (List.ne_nil_of_mem_splitBy hsame)
  obtain ⟨b, hb⟩ := List.exists_mem_of_ne_nil other (List.ne_nil_of_mem_splitBy hother)
  rw [commonBody_eq hsame ha, commonBody_eq hother hb]
  simpa [Occurrence.bodyLe] using (hlt a ha b hb).2

theorem nodup_of_pairwise_precedes {bodies : List Digest}
    (h : bodies.Pairwise fun a b => a.precedes b = true) : bodies.Nodup := by
  refine h.imp fun {a b} hlt => ?_
  rintro rfl
  simp only [Digest.precedes, decide_eq_true_eq] at hlt
  exact List.lt_irrefl _ hlt

theorem mem_sharedBodies_iff {group : List Occurrence} {body : Digest} :
    body ∈ sharedBodies group ↔
      ∃ a ∈ group, ∃ b ∈ group, a.body = body ∧ b.body = body ∧ a.project ≠ b.project := by
  simp only [sharedBodies, List.mem_map, List.mem_filter, decide_eq_true_eq]
  constructor
  · rintro ⟨same, ⟨hsame, hspread⟩, rfl⟩
    obtain ⟨a, ha, b, hb, hne⟩ := one_lt_length_owners_iff.1 hspread
    exact ⟨a, ((mem_iff_of_mem_byBody hsame ha).1 ha).1,
      b, ((mem_iff_of_mem_byBody hsame ha).1 hb).1, (commonBody_eq hsame ha).symm,
      (commonBody_eq hsame hb).symm, hne⟩
  · rintro ⟨a, ha, b, hb, rfl, hbody, hne⟩
    obtain ⟨same, hsame, hasame⟩ : ∃ same ∈ byBody group, a ∈ same :=
      List.exists_mem_splitBy_mergeSort ha
    -- the group of `a` holds all occurrences with its digest, so `b` too
    have hbsame := (mem_iff_of_mem_byBody hsame hasame).2 ⟨hb, hbody.symm⟩
    exact ⟨same, ⟨hsame, one_lt_length_owners_iff.2 ⟨a, hasame, b, hbsame, hne⟩⟩,
      commonBody_eq hsame hasame⟩

/-! ## Identifiers -/

section Identifiers

variable {projects : List Project} {group : List Occurrence} {first : Occurrence}

/-- Membership in a group of occurrences, by the key of its entry. -/
theorem mem_iff_hasKey (hgroup : group ∈ byKey (occurrences projects)) (hfirst : first ∈ group)
    (occurrence : Occurrence) : occurrence ∈ group ↔
      occurrence ∈ occurrences projects ∧ occurrence.HasKey first.name first.kind := by
  rw [mem_iff_of_mem_byKey hgroup hfirst, Occurrence.HasKey, eq_comm, @eq_comm _ first.kind]

/-- Of a group that lies in several projects there is an entry with the key of the group. -/
theorem exists_ofGroup? (hfirst : first ∈ group) (hgroup : group ∈ byKey (occurrences projects))
    (hspread : 1 < (owners group).length) :
    ∃ entry, ofGroup? projects group = some entry ∧ entry.name = first.name ∧
      entry.kind = first.kind := by
  cases group with
  | nil => exact absurd hfirst List.not_mem_nil
  | cons head rest =>
    obtain ⟨-, hname, hkind⟩ := (mem_iff_of_mem_byKey hgroup List.mem_cons_self).1 hfirst
    rw [ofGroup?, if_neg (by omega)]
    exact ⟨_, rfl, hname, hkind⟩

/-- What the entry of a group is made of. -/
theorem ofGroup?_eq_some {entry : SharedIdentifier} (h : ofGroup? projects group = some entry) :
    1 < (owners group).length ∧
      (∃ first ∈ group, entry.name = first.name ∧ entry.kind = first.kind) ∧
      entry.projects = namesAt projects (owners group) ∧
      entry.hardOverlapGroups = overlaps projects group ∧
      entry.strength = if (overlaps projects group).isEmpty then .soft else .hard := by
  cases group with
  | nil => exact nomatch h
  | cons first rest =>
    rw [ofGroup?] at h
    split at h
    · exact nomatch h
    · obtain rfl := Option.some.inj h
      exact ⟨by omega, ⟨first, List.mem_cons_self, rfl, rfl⟩, rfl, rfl, rfl⟩

/-- The texts that several projects share among all occurrences of a key. -/
theorem mem_sharedBodies_iff_isSpread (hgroup : group ∈ byKey (occurrences projects))
    (hfirst : first ∈ group) (body : Digest) :
    body ∈ sharedBodies group ↔
      IsSpread (occurrences projects) (Occurrence.HasBody first.name first.kind body) := by
  simp only [mem_sharedBodies_iff, mem_iff_hasKey hgroup hfirst, IsSpread, Occurrence.HasBody]
  constructor
  · rintro ⟨a, ⟨ha, hakey⟩, b, ⟨hb, hbkey⟩, habody, hbbody, hne⟩
    exact ⟨a, ha, b, hb, ⟨hakey, habody⟩, ⟨hbkey, hbbody⟩, hne⟩
  · rintro ⟨a, ha, b, hb, ⟨hakey, habody⟩, ⟨hbkey, hbbody⟩, hne⟩
    exact ⟨a, ⟨ha, hakey⟩, b, ⟨hb, hbkey⟩, habody, hbbody, hne⟩

/-- The overlaps of a group belong to its shared texts, one each. -/
theorem forall₂_overlaps (hgroup : group ∈ byKey (occurrences projects)) (hfirst : first ∈ group) :
    List.Forall₂ (fun body => NamesOwners projects (Occurrence.HasBody first.name first.kind body))
      (sharedBodies group) (overlaps projects group) := by
  rw [sharedBodies, overlaps, List.forall₂_map_right_iff, List.forall₂_map_left_iff]
  refine List.forall₂_same.2 fun same hsame name => ?_
  have hsame := (List.mem_filter.1 hsame).1
  obtain ⟨a, ha⟩ := List.exists_mem_of_ne_nil same (List.ne_nil_of_mem_splitBy hsame)
  rw [mem_namesAt_owners, commonBody_eq hsame ha]
  simp only [mem_iff_of_mem_byBody hsame ha, mem_iff_hasKey hgroup hfirst, Occurrence.HasBody,
    and_assoc, @eq_comm _ a.body]

theorem mem_identifiers_iff {entry : SharedIdentifier} :
    entry ∈ identifiers projects ↔
      ∃ group ∈ byKey (occurrences projects), ofGroup? projects group = some entry :=
  List.mem_filterMap

/-- The identifiers are listed by name and then by kind, none of them twice. -/
theorem pairwise_identifiers (projects : List Project) :
    (identifiers projects).Pairwise fun a b =>
      a.name < b.name ∨ a.name = b.name ∧ a.kind.rank < b.kind.rank := by
  have hgroups := List.pairwise_splitBy_mergeSort (l := occurrences projects) Occurrence.keyLe_trans
    Occurrence.keyLe_total Occurrence.sameKey_iff_keyLe
  refine List.pairwise_filterMap.2 (hgroups.imp fun {group later} hlt a ha b hb => ?_)
  obtain ⟨-, ⟨first, hfirst, haname, hakind⟩, -⟩ := ofGroup?_eq_some ha
  obtain ⟨-, ⟨second, hsecond, hbname, hbkind⟩, -⟩ := ofGroup?_eq_some hb
  -- the runs are strictly ascending, and any of its occurrences has the key of a run
  obtain ⟨hle, hnot⟩ := hlt first hfirst second hsecond
  rw [Occurrence.keyLe_iff] at hle hnot
  rw [haname, hbname, hakind, hbkind]
  rcases hle with hname | ⟨hname, hrank⟩
  · exact Or.inl hname
  · exact Or.inr ⟨hname, Nat.lt_of_not_le fun hback => hnot (Or.inr ⟨hname.symm, hback⟩)⟩

/-- An identifier is listed exactly if occurrences of its name and kind lie in several projects. -/
theorem exists_mem_identifiers_iff (projects : List Project) (name : String) (kind : BlockKind) :
    (∃ entry ∈ identifiers projects, entry.name = name ∧ entry.kind = kind) ↔
      IsSpread (occurrences projects) (Occurrence.HasKey name kind) := by
  constructor
  · rintro ⟨entry, hentry, rfl, rfl⟩
    obtain ⟨group, hgroup, hsome⟩ := mem_identifiers_iff.1 hentry
    obtain ⟨hspread, ⟨first, hfirst, hname, hkind⟩, -⟩ := ofGroup?_eq_some hsome
    obtain ⟨a, ha, b, hb, hne⟩ := one_lt_length_owners_iff.1 hspread
    rw [mem_iff_hasKey hgroup hfirst, ← hname, ← hkind] at ha hb
    exact ⟨a, ha.1, b, hb.1, ha.2, hb.2, hne⟩
  · rintro ⟨a, ha, b, hb, ⟨rfl, rfl⟩, hkey, hne⟩
    obtain ⟨group, hgroup, hagroup⟩ : ∃ group ∈ byKey (occurrences projects), a ∈ group :=
      List.exists_mem_splitBy_mergeSort ha
    -- the group of `a` holds all occurrences with its key, so `b` too
    have hbgroup := (mem_iff_hasKey hgroup hagroup b).2 ⟨hb, hkey⟩
    obtain ⟨entry, hsome, hname, hkind⟩ := exists_ofGroup? hagroup hgroup
      (one_lt_length_owners_iff.2 ⟨a, hagroup, b, hbgroup, hne⟩)
    exact ⟨entry, mem_identifiers_iff.2 ⟨group, hgroup, hsome⟩, hname, hkind⟩

/-- The overlap groups of an entry belong to the texts that several projects share, in the order of
their digests. -/
theorem exists_bodies_of_mem_identifiers {entry : SharedIdentifier}
    (h : entry ∈ identifiers projects) :
    ∃ bodies : List Digest, (bodies.Pairwise fun a b => a.precedes b = true) ∧
      (∀ body, body ∈ bodies ↔
        IsSpread (occurrences projects) (Occurrence.HasBody entry.name entry.kind body)) ∧
      List.Forall₂
        (fun body => NamesOwners projects (Occurrence.HasBody entry.name entry.kind body))
        bodies entry.hardOverlapGroups := by
  obtain ⟨group, hgroup, hsome⟩ := mem_identifiers_iff.1 h
  obtain ⟨-, ⟨first, hfirst, hname, hkind⟩, -, hoverlaps, -⟩ := ofGroup?_eq_some hsome
  rw [hname, hkind, hoverlaps]
  exact ⟨sharedBodies group, pairwise_sharedBodies group,
    mem_sharedBodies_iff_isSpread hgroup hfirst, forall₂_overlaps hgroup hfirst⟩

/-- What the entry of an identifier says is so. -/
theorem describes_of_mem_identifiers {entry : SharedIdentifier} (h : entry ∈ identifiers projects) :
    Describes projects entry := by
  obtain ⟨bodies, hpairwise, hbodies, hforall⟩ := exists_bodies_of_mem_identifiers h
  obtain ⟨group, hgroup, hsome⟩ := mem_identifiers_iff.1 h
  obtain ⟨-, ⟨first, hfirst, hname, hkind⟩, hnames, hoverlaps, hstrength⟩ := ofGroup?_eq_some hsome
  refine ⟨fun name => ?_, ?_, bodies, nodup_of_pairwise_precedes hpairwise, hbodies, hforall⟩
  · rw [hnames, mem_namesAt_owners, hname, hkind]
    simp only [mem_iff_hasKey hgroup hfirst, and_assoc]
  · -- the overlaps and the shared texts are as many
    rw [← hoverlaps] at hstrength
    simp only [hstrength, ← hbodies]
    cases hlist : bodies with
    | nil =>
      rw [hlist, List.forall₂_nil_left_iff] at hforall
      simp [hforall]
    | cons body rest =>
      rw [hlist, List.forall₂_cons_left_iff] at hforall
      obtain ⟨names, others, -, -, heq⟩ := hforall
      simp only [heq, List.isEmpty_cons, Bool.false_eq_true, if_false, true_iff]
      exact ⟨body, List.mem_cons_self⟩

end Identifiers

end CodeSurvey.Sharing
