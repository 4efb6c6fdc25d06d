import Mathlib.Data.String.Basic
import CodeSurvey.Report.Edge
import CodeSurvey.Proofs.ListLemmas

/-!
# Relationship edges correctness

Putting edges together adds weights and keeps which projects are joined and why. So two projects
are joined by an edge of a report exactly if an entry of the report or a reference joins them.

## Key results

- `Edge.between_eq_some_iff`: the edge between two names
- `Edge.exists_mem_ofDuplicate_iff` / `Edge.exists_mem_ofReferences_iff`: what files held alike and
  references join
- `Report.exists_mem_edges_iff`: which projects are joined
- `Report.ends_of_mem_edges`: the ends of an edge are named in the report
-/

namespace CodeSurvey

namespace Edge

/-- An edge joins two projects for a reason. -/
def Joins (kind : EdgeKind) (source target : String) (edge : Edge) : Prop :=
  edge.kind = kind ∧ edge.source = source ∧ edge.target = target

/-! ## Putting edges together -/

theorem joins_iff_of_sameEnds {a b : Edge} (h : a.sameEnds b = true) (kind : EdgeKind)
    (source target : String) : a.Joins kind source target ↔ b.Joins kind source target := by
  simp only [sameEnds, Bool.and_eq_true, beq_iff_eq] at h
  obtain ⟨⟨hkind, hsource⟩, htarget⟩ := h
  rw [Joins, Joins, hkind, hsource, htarget]

theorem exists_mem_add_iff (edge : Edge) (edges : List Edge) (kind : EdgeKind)
    (source target : String) :
    (∃ other ∈ add edge edges, other.Joins kind source target) ↔
      edge.Joins kind source target ∨ ∃ other ∈ edges, other.Joins kind source target := by
  cases edges with
  | nil => simp [add]
  | cons next rest =>
    rw [add]
    split
    · -- the weight of `next` grows, its ends stay
      rename_i hsame
      have hnext : Joins kind source target { next with weight := edge.weight + next.weight } ↔
          next.Joins kind source target := Iff.rfl
      simp only [List.exists_mem_cons_iff, hnext, joins_iff_of_sameEnds hsame]
      rw [← or_assoc, or_self]
    · simp only [List.exists_mem_cons_iff]

theorem exists_mem_foldr_add_iff (edges : List Edge) (kind : EdgeKind) (source target : String) :
    (∃ edge ∈ edges.foldr add [], edge.Joins kind source target) ↔
      ∃ edge ∈ edges, edge.Joins kind source target := by
  induction edges with
  | nil => simp
  | cons edge rest ih => rw [List.foldr_cons, exists_mem_add_iff, ih, List.exists_mem_cons_iff]

/-! ## Single edges -/

/-- The edge between two names has the smaller one as its source. -/
theorem between_eq_some_iff {reason : EdgeKind} {a b : String} {weight : Nat} {edge : Edge} :
    between reason a b weight = some edge ↔
      edge.kind = reason ∧ edge.weight = weight ∧ edge.source < edge.target ∧
        (a = edge.source ∧ b = edge.target ∨ a = edge.target ∧ b = edge.source) := by
  obtain ⟨kind, source, target, total⟩ := edge
  rw [between]
  rcases lt_trichotomy a b with hab | rfl | hab
  · rw [if_neg hab.ne, if_pos hab, Option.some.injEq, Edge.mk.injEq]
    constructor
    · rintro ⟨rfl, rfl, rfl, rfl⟩
      exact ⟨rfl, rfl, hab, .inl ⟨rfl, rfl⟩⟩
    · rintro ⟨rfl, rfl, hlt, ⟨rfl, rfl⟩ | ⟨rfl, rfl⟩⟩
      · exact ⟨rfl, rfl, rfl, rfl⟩
      · exact absurd hlt (lt_asymm hab)
  · -- a name is not joined to itself
    rw [if_pos rfl]
    refine iff_of_false (fun hnone => nomatch hnone) ?_
    rintro ⟨-, -, hlt, ⟨rfl, rfl⟩ | ⟨rfl, rfl⟩⟩ <;> exact lt_irrefl _ hlt
  · rw [if_neg hab.ne', if_neg (lt_asymm hab), Option.some.injEq, Edge.mk.injEq]
    constructor
    · rintro ⟨rfl, rfl, rfl, rfl⟩
      exact ⟨rfl, rfl, hab, .inr ⟨rfl, rfl⟩⟩
    · rintro ⟨rfl, rfl, hlt, ⟨rfl, rfl⟩ | ⟨rfl, rfl⟩⟩
      · exact absurd hlt (lt_asymm hab)
      · exact ⟨rfl, rfl, rfl, rfl⟩

/-- The pairs of an ascending list are its elements two by two, the smaller one first. -/
theorem mem_pairs_iff_of_ascending {names : List String} (h : names.Pairwise (· < ·))
    {a b : String} : (a, b) ∈ pairs names ↔ a ∈ names ∧ b ∈ names ∧ a < b := by
  induction names with
  | nil => simp [pairs]
  | cons name rest ih =>
    obtain ⟨hfirst, hrest⟩ := List.pairwise_cons.1 h
    rw [pairs, List.mem_append, ih hrest, List.mem_map]
    constructor
    · rintro (⟨other, hother, heq⟩ | ⟨ha, hb, hlt⟩)
      · obtain ⟨rfl, rfl⟩ := Prod.mk.inj heq
        exact ⟨List.mem_cons_self, List.mem_cons_of_mem _ hother, hfirst _ hother⟩
      · exact ⟨List.mem_cons_of_mem _ ha, List.mem_cons_of_mem _ hb, hlt⟩
    · rintro ⟨ha, hb, hlt⟩
      rcases List.mem_cons.1 ha with rfl | ha
      · exact .inl ⟨b, (List.mem_cons.1 hb).resolve_left hlt.ne', rfl⟩
      · have hb := (List.mem_cons.1 hb).resolve_left fun heq =>
          lt_asymm hlt (heq ▸ hfirst a ha)
        exact .inr ⟨ha, hb, hlt⟩

/-- An ascending list has every pair once. -/
theorem nodup_pairs {names : List String} (h : names.Pairwise (· < ·)) : (pairs names).Nodup := by
  induction names with
  | nil => exact List.nodup_nil
  | cons name rest ih =>
    obtain ⟨hfirst, hrest⟩ := List.pairwise_cons.1 h
    rw [pairs, List.nodup_append]
    refine ⟨?_, ih hrest, ?_⟩
    · exact (hrest.imp ne_of_lt).map _ fun a b hne heq => hne (Prod.mk.inj heq).2
    · rintro ⟨a, b⟩ hpair ⟨c, d⟩ hother heq
      obtain ⟨other, -, hsame⟩ := List.mem_map.1 hpair
      have hc := ((mem_pairs_iff_of_ascending hrest).1 hother).1
      obtain ⟨rfl, -⟩ := Prod.mk.inj hsame
      obtain ⟨rfl, -⟩ := Prod.mk.inj heq
      exact lt_irrefl _ (hfirst _ hc)

variable (kind : EdgeKind) (source target : String)

/-- Files held alike join the projects that hold them. -/
theorem exists_mem_ofDuplicate_iff (entry : Duplicate) :
    (∃ edge ∈ ofDuplicate entry, edge.Joins kind source target) ↔
      kind = .duplicate ∧ source < target ∧ source ∈ entry.projects ∧ target ∈ entry.projects := by
  simp only [ofDuplicate, List.mem_filterMap, between_eq_some_iff]
  constructor
  · rintro ⟨edge, ⟨⟨a, b⟩, hpair, hkind, -, hlt, hends⟩, rfl, rfl, rfl⟩
    obtain ⟨ha, hb, -⟩ := (mem_pairs_iff_of_ascending entry.projects.ascending).1 hpair
    refine ⟨hkind, hlt, ?_⟩
    rcases hends with ⟨rfl, rfl⟩ | ⟨rfl, rfl⟩
    · exact ⟨ha, hb⟩
    · exact ⟨hb, ha⟩
  · rintro ⟨rfl, hlt, hsource, htarget⟩
    have hpair := (mem_pairs_iff_of_ascending entry.projects.ascending).2 ⟨hsource, htarget, hlt⟩
    exact ⟨⟨.duplicate, source, target, entry.files.length⟩,
      ⟨(source, target), hpair, rfl, rfl, hlt, .inl ⟨rfl, rfl⟩⟩, rfl, rfl, rfl⟩

/-- References join the project that makes them to the projects that they name. -/
theorem exists_mem_ofReferences_iff (project : Project) :
    (∃ edge ∈ ofReferences project, edge.Joins kind source target) ↔
      kind = .reference ∧ source < target ∧
        (project.name = source ∧ target ∈ project.references ∨
          project.name = target ∧ source ∈ project.references) := by
  simp only [ofReferences, List.mem_filterMap, between_eq_some_iff]
  constructor
  · rintro ⟨edge, ⟨other, hother, hkind, -, hlt, hends⟩, rfl, rfl, rfl⟩
    refine ⟨hkind, hlt, hends.imp ?_ ?_⟩
    · rintro ⟨hname, rfl⟩
      exact ⟨hname, hother⟩
    · rintro ⟨hname, rfl⟩
      exact ⟨hname, hother⟩
  · rintro ⟨rfl, hlt, hends⟩
    obtain ⟨other, hother, hends⟩ : ∃ other ∈ project.references,
        project.name = source ∧ other = target ∨ project.name = target ∧ other = source := by
      rcases hends with ⟨hname, hmem⟩ | ⟨hname, hmem⟩
      · exact ⟨target, hmem, .inl ⟨hname, rfl⟩⟩
      · exact ⟨source, hmem, .inr ⟨hname, rfl⟩⟩
    exact ⟨⟨.reference, source, target, 1⟩, ⟨other, hother, rfl, rfl, hlt, hends⟩, rfl, rfl, rfl⟩

end Edge

namespace Report

variable (report : Report)

theorem exists_mem_rawEdges_iff (kind : EdgeKind) (source target : String) :
    (∃ edge ∈ report.rawEdges, edge.Joins kind source target) ↔
      (∃ entry ∈ report.duplicates, ∃ edge ∈ Edge.ofDuplicate entry,
          edge.Joins kind source target) ∨
        ∃ project ∈ report.projects, ∃ edge ∈ Edge.ofReferences project,
          edge.Joins kind source target := by
  simp only [rawEdges, List.mem_append, List.mem_flatMap]
  grind

/-- Two projects are joined by an edge of a report exactly if they are before edges are put
together. -/
theorem exists_mem_edges_iff (kind : EdgeKind) (source target : String) :
    (∃ edge ∈ report.edges, edge.Joins kind source target) ↔
      ∃ edge ∈ report.rawEdges, edge.Joins kind source target := by
  rw [edges, Edge.exists_mem_foldr_add_iff]
  simp only [List.mem_mergeSort]

variable {report}

/-- The source of an edge is the smaller end. -/
theorem source_lt_target_of_mem_edges {edge : Edge} (h : edge ∈ report.edges) :
    edge.source < edge.target := by
  have hjoined := (report.exists_mem_edges_iff edge.kind _ _).1 ⟨edge, h, rfl, rfl, rfl⟩
  rcases (exists_mem_rawEdges_iff _ _ _ _).1 hjoined with
    ⟨entry, -, hentry⟩ | ⟨project, -, hproject⟩
  · exact ((Edge.exists_mem_ofDuplicate_iff _ _ _ entry).1 hentry).2.1
  · exact ((Edge.exists_mem_ofReferences_iff _ _ _ project).1 hproject).2.1

/-- Where the names come from that the ends of an edge are. -/
theorem ends_of_mem_edges {edge : Edge} (h : edge ∈ report.edges) :
    (∃ entry ∈ report.duplicates, edge.source ∈ entry.projects ∧ edge.target ∈ entry.projects) ∨
      ∃ project ∈ report.projects,
        (edge.source = project.name ∨ edge.source ∈ project.references) ∧
        (edge.target = project.name ∨ edge.target ∈ project.references) := by
  have hjoined := (report.exists_mem_edges_iff edge.kind _ _).1 ⟨edge, h, rfl, rfl, rfl⟩
  rcases (exists_mem_rawEdges_iff _ _ _ _).1 hjoined with ⟨entry, hentry, hjoins⟩ |
    ⟨project, hproject, hjoins⟩
  · obtain ⟨-, -, hends⟩ := (Edge.exists_mem_ofDuplicate_iff _ _ _ entry).1 hjoins
    exact .inl ⟨entry, hentry, hends⟩
  · obtain ⟨-, -, hends⟩ := (Edge.exists_mem_ofReferences_iff _ _ _ project).1 hjoins
    refine .inr ⟨project, hproject, ?_⟩
    rcases hends with ⟨hname, hmem⟩ | ⟨hname, hmem⟩
    · exact ⟨.inl hname.symm, .inr hmem⟩
    · exact ⟨.inr hmem, .inl hname.symm⟩

/-- Files that at least two projects hold alike join two of these projects. -/
theorem exists_edge_of_mem_duplicates {entry : Duplicate} (hentry : entry ∈ report.duplicates)
    (h : 2 ≤ entry.projects.size) :
    ∃ edge ∈ report.edges, edge.kind = .duplicate ∧ edge.source ∈ entry.projects ∧
      edge.target ∈ entry.projects := by
  obtain ⟨a, b, ha, hb, hlt⟩ : ∃ a b, a ∈ entry.projects ∧ b ∈ entry.projects ∧ a < b := by
    have hascending := entry.projects.ascending
    simp only [← NameSet.mem_toList]
    rw [NameSet.size] at h
    match hnames : entry.projects.toList with
    | [] => simp [hnames] at h
    | [_] => simp [hnames] at h
    | a :: b :: rest =>
      rw [hnames, List.pairwise_cons] at hascending
      exact ⟨a, b, by simp, by simp, hascending.1 b List.mem_cons_self⟩
  have hraw := (Edge.exists_mem_ofDuplicate_iff .duplicate a b entry).2 ⟨rfl, hlt, ha, hb⟩
  obtain ⟨edge, hedge, hkind, rfl, rfl⟩ := (report.exists_mem_edges_iff _ _ _).2
    ((report.exists_mem_rawEdges_iff _ _ _).2 (.inl ⟨entry, hentry, hraw⟩))
  exact ⟨edge, hedge, hkind, ha, hb⟩

end Report

end CodeSurvey
