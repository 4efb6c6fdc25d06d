import Mathlib.Algebra.Order.Ring.Nat
import Mathlib.Data.List.Sort
import Mathlib.Data.Prod.Lex
import CodeSurvey.Proofs.RelationshipEdges

/-!
# Weights of edges

Edges are sorted and then put together, so a report lists one edge for two projects and a kind, in
the order of the kinds, the sources and the targets. Its weight is the sum of all that joins the
two: the numbers of files in the duplicates that both hold, or the references from either to the
other. As sums do not depend on the order of their terms, the order of what a report lists does not
matter.

## Key results

- `Edge.pairwise_foldr_add`: sorted edges put together are in strict order
- `Edge.totalWeight_foldr_add`: putting edges together keeps the weight between any two projects
- `Edge.totalWeight_ofDuplicate` / `Edge.totalWeight_ofReferences`: what duplicates and references
  add to a weight
- `Report.mem_edges_iff`: which edges a report has, with which weights
- `Report.isGraph_edges_of_isReordering`: the graph of a report
-/

namespace CodeSurvey

theorem EdgeKind.rank_inj {a b : EdgeKind} : a.rank = b.rank ↔ a = b := by
  cases a <;> cases b <;> decide

namespace Edge

/-! ## The order of edges -/

/-- Whether an edge is listed before another: by kind, files held alike before references, then by
source, then by target. -/
def Before (a b : Edge) : Prop :=
  a.kind.rank < b.kind.rank ∨
    a.kind = b.kind ∧ (a.source < b.source ∨ a.source = b.source ∧ a.target < b.target)

/-- What decides where an edge is listed. -/
def place (edge : Edge) : Nat ×ₗ String ×ₗ String :=
  toLex (edge.kind.rank, toLex (edge.source, edge.target))

theorem before_iff (a b : Edge) : a.Before b ↔ a.place < b.place := by
  rw [Before, place, place, Prod.Lex.toLex_lt_toLex, Prod.Lex.toLex_lt_toLex,
    EdgeKind.rank_inj]

instance : Std.Irrefl Before :=
  ⟨fun edge h => lt_irrefl _ ((before_iff edge edge).1 h)⟩

instance : Std.Antisymm Before :=
  ⟨fun a b hab hba =>
    absurd (((before_iff a b).1 hab).trans ((before_iff b a).1 hba)) (lt_irrefl _)⟩

theorem precedes_iff (a b : Edge) : a.precedes b = true ↔ a.Before b := by
  simp [precedes, Before]

theorem joins_iff_place_eq (a b : Edge) :
    a.Joins b.kind b.source b.target ↔ a.place = b.place := by
  simp only [Joins, place, toLex_inj, Prod.mk.injEq, EdgeKind.rank_inj]

theorem sameEnds_iff (a b : Edge) : a.sameEnds b = true ↔ a.place = b.place := by
  rw [← joins_iff_place_eq]
  simp [sameEnds, Joins, and_assoc]

theorem eq_of_place_eq {a b : Edge} (h : a.place = b.place) (hweight : a.weight = b.weight) :
    a = b := by
  obtain ⟨hkind, hsource, htarget⟩ := (joins_iff_place_eq a b).2 h
  cases a
  cases b
  simp_all

/-- Sorting brings edges in their order, edges with the same ends side by side. -/
theorem pairwise_mergeSort_precedes (edges : List Edge) :
    (edges.mergeSort fun a b => !b.precedes a).Pairwise fun a b => a.place ≤ b.place := by
  have hle : ∀ a b : Edge, (!b.precedes a) = true ↔ a.place ≤ b.place := fun a b => by
    rw [Bool.not_eq_true', ← Bool.not_eq_true, precedes_iff, before_iff, not_lt]
  have hsorted : (edges.mergeSort fun a b => !b.precedes a).Pairwise
      fun a b => (!b.precedes a) = true :=
    List.pairwise_mergeSort
      (fun a b c hab hbc => (hle a c).2 (((hle a b).1 hab).trans ((hle b c).1 hbc)))
      (fun a b => by
        rw [Bool.or_eq_true, hle, hle]
        exact le_total _ _) edges
  exact hsorted.imp fun {a b} hab => (hle a b).1 hab

/-- Putting sorted edges together leaves one for the same ends. -/
theorem pairwise_foldr_add {edges : List Edge}
    (h : edges.Pairwise fun a b => a.place ≤ b.place) : (edges.foldr add []).Pairwise Before := by
  induction edges with
  | nil => exact List.Pairwise.nil
  | cons edge rest ih =>
    obtain ⟨hfirst, hrest⟩ := List.pairwise_cons.1 h
    have hstrict := ih hrest
    -- what has been put together stands where it stood before
    have hbehind : ∀ other ∈ rest.foldr add [], edge.place ≤ other.place := fun other hother => by
      obtain ⟨raw, hraw, hjoins⟩ := (exists_mem_foldr_add_iff rest _ _ _).1
        ⟨other, hother, rfl, rfl, rfl⟩
      rw [← (joins_iff_place_eq raw other).1 hjoins]
      exact hfirst raw hraw
    rw [List.foldr_cons]
    cases hadded : rest.foldr add [] with
    | nil => exact List.pairwise_singleton _ _
    | cons next later =>
      rw [hadded] at hstrict hbehind
      rw [add]
      split
      · -- the weight of `next` grows, its place stays
        obtain ⟨hnext, hlater⟩ := List.pairwise_cons.1 hstrict
        exact List.pairwise_cons.2 ⟨hnext, hlater⟩
      · rename_i hsame
        have hlt : edge.place < next.place :=
          lt_of_le_of_ne (hbehind next List.mem_cons_self) fun heq =>
            hsame ((sameEnds_iff edge next).2 heq)
        refine List.pairwise_cons.2 ⟨?_, hstrict⟩
        rw [List.forall_mem_cons]
        refine ⟨(before_iff _ _).2 hlt, fun other hother => ?_⟩
        have hnext := (before_iff _ _).1 ((List.pairwise_cons.1 hstrict).1 other hother)
        exact (before_iff _ _).2 (hlt.trans hnext)

/-! ## Weights -/

instance (kind : EdgeKind) (source target : String) (edge : Edge) :
    Decidable (edge.Joins kind source target) :=
  inferInstanceAs (Decidable (_ ∧ _ ∧ _))

/-- The weight of all edges of a list that join two projects for a reason. -/
def totalWeight (kind : EdgeKind) (source target : String) (edges : List Edge) : Nat :=
  (edges.map fun edge => if edge.Joins kind source target then edge.weight else 0).sum

variable (kind : EdgeKind) (source target : String)

@[simp] theorem totalWeight_nil : totalWeight kind source target [] = 0 := rfl

@[simp] theorem totalWeight_cons (edge : Edge) (edges : List Edge) :
    totalWeight kind source target (edge :: edges) =
      (if edge.Joins kind source target then edge.weight else 0) +
        totalWeight kind source target edges := rfl

@[simp] theorem totalWeight_append (edges others : List Edge) :
    totalWeight kind source target (edges ++ others) =
      totalWeight kind source target edges + totalWeight kind source target others := by
  rw [totalWeight, List.map_append, List.sum_append]
  rfl

theorem totalWeight_flatMap {α : Type} (f : α → List Edge) (l : List α) :
    totalWeight kind source target (l.flatMap f) =
      (l.map fun a => totalWeight kind source target (f a)).sum := by
  induction l with
  | nil => rfl
  | cons a rest ih => rw [List.flatMap_cons, totalWeight_append, ih, List.map_cons, List.sum_cons]

theorem totalWeight_of_perm {edges others : List Edge} (h : edges.Perm others) :
    totalWeight kind source target edges = totalWeight kind source target others :=
  (h.map _).sum_nat

/-- Putting edges together keeps the weight. -/
theorem totalWeight_add (edge : Edge) (edges : List Edge) :
    totalWeight kind source target (add edge edges) =
      totalWeight kind source target (edge :: edges) := by
  cases edges with
  | nil => rfl
  | cons next rest =>
    rw [add]
    split
    · rename_i hsame
      have hnext : Joins kind source target { next with weight := edge.weight + next.weight } ↔
          next.Joins kind source target := Iff.rfl
      simp only [totalWeight_cons, hnext, joins_iff_of_sameEnds hsame]
      split <;> omega
    · rfl

theorem totalWeight_foldr_add (edges : List Edge) :
    totalWeight kind source target (edges.foldr add []) =
      totalWeight kind source target edges := by
  induction edges with
  | nil => rfl
  | cons edge rest ih =>
    rw [List.foldr_cons, totalWeight_add, totalWeight_cons, ih, totalWeight_cons]

theorem totalWeight_eq_zero {edges : List Edge}
    (h : ∀ edge ∈ edges, ¬ edge.Joins kind source target) :
    totalWeight kind source target edges = 0 := by
  rw [totalWeight, List.sum_eq_zero_iff_forall_eq_nat, List.forall_mem_map]
  exact fun edge hedge => if_neg (h edge hedge)

/-- In a list with one edge for the same ends the weight of an edge is all the weight between its
ends. -/
theorem totalWeight_of_mem {edges : List Edge} (h : edges.Pairwise Before) {edge : Edge}
    (hmem : edge ∈ edges) :
    totalWeight edge.kind edge.source edge.target edges = edge.weight := by
  induction edges with
  | nil => exact absurd hmem List.not_mem_nil
  | cons first rest ih =>
    obtain ⟨hfirst, hrest⟩ := List.pairwise_cons.1 h
    rw [totalWeight_cons]
    rcases List.mem_cons.1 hmem with rfl | hmem
    · have hnone : ∀ other ∈ rest, ¬ other.Joins edge.kind edge.source edge.target :=
        fun other hother hjoins => by
          have hlt := (before_iff _ _).1 (hfirst other hother)
          exact hlt.ne' ((joins_iff_place_eq _ _).1 hjoins)
      rw [if_pos ⟨rfl, rfl, rfl⟩, totalWeight_eq_zero _ _ _ hnone, Nat.add_zero]
    · have hlt := (before_iff _ _).1 (hfirst edge hmem)
      rw [if_neg fun hjoins => hlt.ne ((joins_iff_place_eq _ _).1 hjoins), Nat.zero_add,
        ih hrest hmem]

/-- What a list with one edge for the same ends holds. -/
theorem mem_iff_of_pairwise {edges : List Edge} (h : edges.Pairwise Before) (edge : Edge) :
    edge ∈ edges ↔
      (∃ other ∈ edges, other.Joins edge.kind edge.source edge.target) ∧
        edge.weight = totalWeight edge.kind edge.source edge.target edges := by
  constructor
  · intro hmem
    exact ⟨⟨edge, hmem, rfl, rfl, rfl⟩, (totalWeight_of_mem h hmem).symm⟩
  · rintro ⟨⟨other, hother, hjoins⟩, hweight⟩
    have hplace := (joins_iff_place_eq other edge).1 hjoins
    have htotal := totalWeight_of_mem h hother
    obtain ⟨hkind, hsource, htarget⟩ := hjoins
    rw [hkind, hsource, htarget, ← hweight] at htotal
    rwa [eq_of_place_eq hplace.symm htotal]

/-! ## Edges between names -/

section Between

variable {source target : String} (hlt : source < target) (reason : EdgeKind)

include hlt

/-- The edge between two names joins these two, in the order in which they come. -/
theorem totalWeight_between (a b : String) (weight : Nat) :
    totalWeight kind source target (between reason a b weight).toList =
      if reason = kind ∧ (a = source ∧ b = target ∨ a = target ∧ b = source) then weight
      else 0 := by
  cases hbetween : between reason a b weight with
  | none =>
    rw [if_neg]
    · rfl
    · rintro ⟨rfl, hends⟩
      have hsome : between reason a b weight = some ⟨reason, source, target, weight⟩ :=
        between_eq_some_iff.2 ⟨rfl, rfl, hlt, hends⟩
      exact nomatch hbetween.symm.trans hsome
  | some edge =>
    obtain ⟨rfl, rfl, hedge, hends⟩ := between_eq_some_iff.1 hbetween
    rw [Option.toList_some, totalWeight_cons, totalWeight_nil, Nat.add_zero]
    refine if_congr ?_ rfl rfl
    unfold Joins
    grind [lt_asymm hlt, lt_asymm hedge]

/-- Edges of one weight between names join two names as often as these two stand together. -/
theorem totalWeight_filterMap_between {α : Type} (f g : α → String) (weight : Nat) (l : List α) :
    totalWeight kind source target (l.filterMap fun x => between reason (f x) (g x) weight) =
      if reason = kind then
        weight * l.countP fun x =>
          f x = source ∧ g x = target ∨ f x = target ∧ g x = source
      else 0 := by
  induction l with
  | nil => simp
  | cons x rest ih =>
    have hstep : (x :: rest).filterMap (fun x => between reason (f x) (g x) weight) =
        (between reason (f x) (g x) weight).toList ++
          rest.filterMap fun x => between reason (f x) (g x) weight := by
      rw [List.filterMap_cons]
      cases between reason (f x) (g x) weight <;> rfl
    rw [hstep, totalWeight_append, totalWeight_between kind hlt, ih, List.countP_cons]
    by_cases hkind : reason = kind
    · simp only [hkind, true_and, if_true, decide_eq_true_eq, Nat.mul_add]
      split <;> omega
    · simp only [hkind, false_and, if_false]

end Between

section Sources

variable {source target : String} (hlt : source < target)

include hlt

/-- Files held alike add their number to every two projects that hold them. -/
theorem totalWeight_ofDuplicate (entry : Duplicate) :
    totalWeight kind source target (ofDuplicate entry) =
      if kind = .duplicate ∧ source ∈ entry.projects ∧ target ∈ entry.projects
        then entry.files.length else 0 := by
  have hascending := entry.projects.ascending
  -- the pair stands there once, and never the other way round
  have hcount : (pairs entry.projects.toList).countP (fun pair =>
      pair.1 = source ∧ pair.2 = target ∨ pair.1 = target ∧ pair.2 = source) =
        if source ∈ entry.projects ∧ target ∈ entry.projects then 1 else 0 := by
    have hmem : (source, target) ∈ pairs entry.projects.toList ↔
        source ∈ entry.projects ∧ target ∈ entry.projects := by
      rw [mem_pairs_iff_of_ascending hascending, NameSet.mem_toList, NameSet.mem_toList,
        and_iff_left hlt]
    have hsame : ∀ pair ∈ pairs entry.projects.toList,
        (decide (pair.1 = source ∧ pair.2 = target ∨ pair.1 = target ∧ pair.2 = source) = true ↔
          (pair == (source, target)) = true) := by
      rintro ⟨a, b⟩ hpair
      obtain ⟨-, -, hab⟩ := (mem_pairs_iff_of_ascending hascending).1 hpair
      have hswapped : ¬ (a = target ∧ b = source) := by
        rintro ⟨rfl, rfl⟩
        exact lt_asymm hlt hab
      simp [hswapped]
    rw [List.countP_congr hsame, ← List.count, (nodup_pairs hascending).count]
    exact if_congr hmem rfl rfl
  rw [ofDuplicate, totalWeight_filterMap_between kind hlt, hcount]
  by_cases hkind : kind = .duplicate
  · simp [hkind]
  · simp [hkind, Ne.symm hkind]

/-- A reference adds one to the two projects, whichever refers to the other. -/
theorem totalWeight_ofReferences (project : Project) :
    totalWeight kind source target (ofReferences project) =
      if kind = .reference then
        (if project.name = source then project.references.count target else 0) +
          (if project.name = target then project.references.count source else 0)
      else 0 := by
  have hne := hlt.ne
  have hcount : project.references.countP (fun other =>
      project.name = source ∧ other = target ∨ project.name = target ∧ other = source) =
        (if project.name = source then project.references.count target else 0) +
          (if project.name = target then project.references.count source else 0) := by
    by_cases hsource : project.name = source
    · simp [hsource, hne, List.count, beq_eq_decide]
    · by_cases htarget : project.name = target
      · simp [htarget, hne.symm, List.count, beq_eq_decide]
      · simp [hsource, htarget]
  rw [ofReferences, totalWeight_filterMap_between kind hlt, hcount, Nat.one_mul]
  exact if_congr eq_comm rfl rfl

end Sources

end Edge

namespace Report

variable (report : Report)

theorem pairwise_edges : report.edges.Pairwise Edge.Before :=
  Edge.pairwise_foldr_add (Edge.pairwise_mergeSort_precedes report.rawEdges)

/-- Two projects are joined by one edge for a reason, with the weight of all that join them. -/
theorem mem_edges_iff (edge : Edge) :
    edge ∈ report.edges ↔
      (∃ raw ∈ report.rawEdges, raw.Joins edge.kind edge.source edge.target) ∧
        edge.weight = Edge.totalWeight edge.kind edge.source edge.target report.rawEdges := by
  have htotal : Edge.totalWeight edge.kind edge.source edge.target report.edges =
      Edge.totalWeight edge.kind edge.source edge.target report.rawEdges := by
    -- neither sorting nor putting together changes a weight
    rw [edges, Edge.totalWeight_foldr_add]
    exact Edge.totalWeight_of_perm _ _ _ (List.mergeSort_perm _ _)
  rw [Edge.mem_iff_of_pairwise report.pairwise_edges, exists_mem_edges_iff, htotal]

variable {report}

/-- The order in which edges are found does not matter. -/
theorem edges_eq_of_perm {other : Report} (h : report.rawEdges.Perm other.rawEdges) :
    report.edges = other.edges := by
  -- lists in one strict order are equal if they hold the same
  apply List.Pairwise.eq_of_mem_iff report.pairwise_edges other.pairwise_edges
  intro edge
  rw [mem_edges_iff, mem_edges_iff, Edge.totalWeight_of_perm _ _ _ h]
  simp only [h.mem_iff]

theorem totalWeight_rawEdges (kind : EdgeKind) (source target : String) :
    Edge.totalWeight kind source target report.rawEdges =
      (report.duplicates.map fun entry =>
          Edge.totalWeight kind source target (Edge.ofDuplicate entry)).sum +
        (report.projects.map fun project =>
          Edge.totalWeight kind source target (Edge.ofReferences project)).sum := by
  rw [rawEdges, Edge.totalWeight_append, Edge.totalWeight_flatMap, Edge.totalWeight_flatMap]

/-! ## The graph -/

/-- The edges of a graph are all that the duplicates and the references of a report say of any two
projects, put together for each two and each kind. -/
structure IsGraph (report : Report) (edges : List Edge) : Prop where
  ascending : edges.Pairwise Edge.Before
  nodup_ends : (edges.map fun edge => (edge.kind, edge.source, edge.target)).Nodup
  source_lt_target : ∀ edge ∈ edges, edge.source < edge.target
  duplicate : ∀ a b weight, a < b → (⟨.duplicate, a, b, weight⟩ ∈ edges ↔
    (∃ entry ∈ report.duplicates, a ∈ entry.projects ∧ b ∈ entry.projects) ∧
      weight = (report.duplicates.map fun entry =>
        if a ∈ entry.projects ∧ b ∈ entry.projects then entry.files.length else 0).sum)
  reference : ∀ a b weight, a < b → (⟨.reference, a, b, weight⟩ ∈ edges ↔
    (∃ project ∈ report.projects, project.name = a ∧ b ∈ project.references ∨
        project.name = b ∧ a ∈ project.references) ∧
      weight = (report.projects.map fun project =>
        (if project.name = a then project.references.count b else 0) +
          (if project.name = b then project.references.count a else 0)).sum)

/-- Another report says the same in another order: of the projects, of the references of each and of
the duplicates. -/
structure IsReordering (report other : Report) : Prop where
  projects : ∃ middle, report.projects.Perm middle ∧
    List.Forall₂ (fun a b => a.name = b.name ∧ a.references.Perm b.references) middle
      other.projects
  duplicates : report.duplicates.Perm other.duplicates

theorem isGraph_edges : report.IsGraph report.edges where
  ascending := report.pairwise_edges
  nodup_ends := List.pairwise_map.2 (report.pairwise_edges.imp fun {a b} hab heq => by
    obtain ⟨hkind, hsource, htarget⟩ : a.kind = b.kind ∧ a.source = b.source ∧
        a.target = b.target := by simpa using heq
    exact ((Edge.before_iff a b).1 hab).ne
      ((Edge.joins_iff_place_eq a b).1 ⟨hkind, hsource, htarget⟩))
  source_lt_target := fun edge => source_lt_target_of_mem_edges
  duplicate := fun a b weight hlt => by
    rw [mem_edges_iff, exists_mem_rawEdges_iff, totalWeight_rawEdges]
    simp [Edge.exists_mem_ofDuplicate_iff, Edge.exists_mem_ofReferences_iff, hlt,
      Edge.totalWeight_ofDuplicate _ hlt, Edge.totalWeight_ofReferences _ hlt]
  reference := fun a b weight hlt => by
    rw [mem_edges_iff, exists_mem_rawEdges_iff, totalWeight_rawEdges]
    simp [Edge.exists_mem_ofDuplicate_iff, Edge.exists_mem_ofReferences_iff, hlt,
      Edge.totalWeight_ofDuplicate _ hlt, Edge.totalWeight_ofReferences _ hlt]

/-- Two reports that say the same in different orders have the same edges before they are put
together. -/
theorem IsReordering.rawEdges_perm {other : Report} (h : report.IsReordering other) :
    report.rawEdges.Perm other.rawEdges := by
  obtain ⟨⟨middle, hprojects, hreferences⟩, hduplicates⟩ := h
  have hmiddle : (middle.flatMap Edge.ofReferences).Perm
      (other.projects.flatMap Edge.ofReferences) := by
    -- project by project, both have the same references in some order
    clear hprojects
    generalize other.projects = others at hreferences
    induction hreferences with
    | nil => exact List.Perm.nil
    | cons hhead _ ih =>
      rw [List.flatMap_cons, List.flatMap_cons]
      refine List.Perm.append ?_ ih
      rw [Edge.ofReferences, Edge.ofReferences, hhead.1]
      exact hhead.2.filterMap _
  exact (hduplicates.flatMap_right _).append ((hprojects.flatMap_right _).trans hmiddle)

/-- The edges of a report are the graph that its duplicates and references make, whatever their
order and that of the projects. -/
theorem isGraph_edges_of_isReordering (report : Report) : report.IsGraph report.edges ∧
    ∀ other : Report, report.IsReordering other → other.edges = report.edges :=
  ⟨isGraph_edges, fun _ h => (edges_eq_of_perm h.rawEdges_perm).symm⟩

/-- Three projects with two contents in common, two of which refer to each other. -/
def triangle : Report where
  projects := [
    { name := "beta", rootPath := ⟨"/ws/beta"⟩, references := ["alpha", "beta", "alpha"] },
    { name := "alpha", rootPath := ⟨"/ws/alpha"⟩, references := ["beta", "gamma"] }]
  duplicates := [
    ⟨.ofList ["alpha", "beta", "gamma"], ["alpha/a", "beta/a", "gamma/a"]⟩,
    ⟨.ofList ["alpha", "beta"], ["alpha/b", "beta/b"]⟩]
  sharedIdentifiers := []

theorem isGraph_edges_triangle :
    triangle.IsReordering { triangle with
      projects := triangle.projects.reverse, duplicates := triangle.duplicates.reverse } ∧
    ⟨.duplicate, "alpha", "beta", 5⟩ ∈ triangle.edges ∧
    ⟨.reference, "alpha", "beta", 3⟩ ∈ triangle.edges ∧
    Report.edges { triangle with
      projects := triangle.projects.reverse, duplicates := triangle.duplicates.reverse } =
        triangle.edges := by
  have hreordering : triangle.IsReordering { triangle with
      projects := triangle.projects.reverse, duplicates := triangle.duplicates.reverse } :=
    ⟨⟨_, (List.reverse_perm _).symm, List.forall₂_same.2 fun project _ => ⟨rfl, List.Perm.refl _⟩⟩,
      (List.reverse_perm _).symm⟩
  obtain ⟨hgraph, hsame⟩ := isGraph_edges_of_isReordering triangle
  refine ⟨hreordering, ?_, ?_, hsame _ hreordering⟩
  · exact (hgraph.duplicate "alpha" "beta" 5 (by decide)).2 (by simp [triangle])
  · exact (hgraph.reference "alpha" "beta" 3 (by decide)).2 (by simp [triangle])

end Report

end CodeSurvey
