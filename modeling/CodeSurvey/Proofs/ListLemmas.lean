import Mathlib.Data.List.Forall2
import Mathlib.Data.List.Nodup
import Mathlib.Data.List.SplitBy

/-!
# List lemmas

Generic lemmas about what a function finds in a list (`List.filterMap`), about lists that correspond
(`List.Forall₂`), about cutting a list, about sorting by numbers, about first occurrences
(`List.eraseDups`), about groups of elements with one key and about the runs of equal elements of an
ordered list (`List.splitBy`).

## Key results

- `mergeSort_eq_of_perm`: elements with different numbers are sorted in one way only
- `pairwise_idxOf_eraseDups`: first occurrences come in the order of their positions
- `pairwise_eraseDups_flatMap`: and in a list of lists, list by list
- `eraseDups_map_of_injOn`: first occurrences of images under a map that merges nothing
- `mem_of_mem_splitBy_iff`: a run of an ordered list holds all elements equal to any of its own
- `pairwise_splitBy`: the runs of an ordered list are strictly ascending
- `mem_iff_of_mem_splitBy_mergeSort` / `pairwise_splitBy_mergeSort`: the same of a list that is
  sorted first
-/

namespace List

/-! ## What is found in a list -/

theorem filterMap_concat {α β : Type _} (f : α → Option β) (l : List α) (a : α) :
    (l ++ [a]).filterMap f = l.filterMap f ++ (f a).toList := by
  rw [filterMap_append, filterMap_cons]
  cases f a <;> rfl

/-- The elements at all positions of a list are the list. -/
theorem filterMap_getElem?_range {α : Type _} (l : List α) :
    (range l.length).filterMap (fun position => l[position]?) = l := by
  induction l using reverseRecOn with
  | nil => rfl
  | append_singleton front a ih =>
    rw [length_append, length_singleton, range_succ, filterMap_append]
    have hfront : (range front.length).filterMap (fun position => (front ++ [a])[position]?) =
        front := by
      refine Eq.trans (filterMap_congr fun position hposition => ?_) ih
      rw [getElem?_append_left (mem_range.1 hposition)]
    rw [hfront]
    simp

/-- Where the images of the elements differ, elements with one image stand at one position. -/
theorem position_eq_of_nodup_map {α β : Type _} {f : α → β} {l : List α} (h : (l.map f).Nodup)
    {i j : Nat} {a b : α} (ha : l[i]? = some a) (hb : l[j]? = some b) (heq : f a = f b) :
    i = j := by
  have hlt : i < (l.map f).length := by
    rw [length_map]
    exact (getElem?_eq_some_iff.1 ha).1
  refine (getElem?_inj hlt h).1 ?_
  rw [getElem?_map, getElem?_map, ha, hb, Option.map_some, Option.map_some, heq]

/-- What is looked up by a key, if everything with this key agrees. -/
theorem lookup_eq_some_of_forall {α β : Type _} [BEq α] [LawfulBEq α] {l : List (α × β)} {key : α}
    {value : β} (hmem : (key, value) ∈ l)
    (h : ∀ pair ∈ l, pair.1 = key → pair.2 = value) : l.lookup key = some value := by
  induction l with
  | nil => exact absurd hmem not_mem_nil
  | cons pair rest ih =>
    obtain ⟨first, found⟩ := pair
    rw [lookup_cons]
    by_cases hfirst : key = first
    · subst hfirst
      have hvalue : found = value := h _ mem_cons_self rfl
      simp [hvalue]
    · have hrest : (key, value) ∈ rest := (mem_cons.1 hmem).resolve_left
        fun heq => hfirst (congrArg Prod.fst heq)
      rw [beq_eq_false_iff_ne.2 hfirst]
      exact ih hrest fun pair hpair => h pair (mem_cons_of_mem _ hpair)

/-- The elements in which something is found, with what is found. -/
theorem forall₂_filterMap {α β : Type _} {r : α → β → Prop} {f : α → Option β} {l : List α}
    (h : ∀ a ∈ l, ∀ b, f a = some b → r a b) :
    Forall₂ r (l.filter fun a => (f a).isSome) (l.filterMap f) := by
  induction l with
  | nil => exact .nil
  | cons a rest ih =>
    have ih := ih fun b hb => h b (mem_cons_of_mem a hb)
    rw [filter_cons, filterMap_cons]
    cases hfound : f a with
    | none => simpa [hfound] using ih
    | some b => simpa [hfound] using ⟨h a mem_cons_self b hfound, ih⟩

/-- If something is found in every element, the list corresponds to what is found. -/
theorem forall₂_filterMap_of_exists {α β : Type _} {r : α → β → Prop} {f : α → Option β}
    {l : List α} (h : ∀ a ∈ l, ∃ b, f a = some b ∧ r a b) : Forall₂ r l (l.filterMap f) := by
  have hall : l.filter (fun a => (f a).isSome) = l := by
    refine filter_eq_self.2 fun a ha => ?_
    obtain ⟨b, hb, -⟩ := h a ha
    exact Option.isSome_of_eq_some hb
  have hfound : Forall₂ r (l.filter fun a => (f a).isSome) (l.filterMap f) := by
    refine forall₂_filterMap fun a ha b hb => ?_
    obtain ⟨b', hb', hr⟩ := h a ha
    rwa [Option.some.inj (hb.symm.trans hb')]
  rwa [hall] at hfound

/-- Every element of the second of two lists that correspond belongs to one of the first. -/
theorem exists_of_mem_of_forall₂ {α β : Type _} {r : α → β → Prop} {l : List α} {others : List β}
    (h : Forall₂ r l others) {b : β} (hb : b ∈ others) : ∃ a ∈ l, r a b := by
  induction h with
  | nil => simp at hb
  | cons hab hrest ih =>
    rcases mem_cons.1 hb with rfl | hb
    · exact ⟨_, mem_cons_self, hab⟩
    · obtain ⟨a, ha, hab⟩ := ih hb
      exact ⟨a, mem_cons_of_mem _ ha, hab⟩

/-- The same is found in two lists that correspond if it is found in elements that do. -/
theorem filterMap_eq_of_forall₂ {α β γ : Type _} {r : α → β → Prop} {f : α → Option γ}
    {g : β → Option γ} {l : List α} {others : List β} (h : Forall₂ r l others)
    (heq : ∀ a b, r a b → g b = f a) : others.filterMap g = l.filterMap f := by
  induction h with
  | nil => rfl
  | cons hab _ ih => rw [filterMap_cons, filterMap_cons, heq _ _ hab, ih]

/-- What is read of every element is read of the list. -/
theorem mapM_map_eq_some {α β γ : Type _} {read? : β → Option γ} {written : α → β} {meant : α → γ}
    (h : ∀ a, read? (written a) = some (meant a)) (l : List α) :
    (l.map written).mapM read? = some (l.map meant) := by
  rw [mapM_map, show read? ∘ written = fun a => pure (meant a) from funext h, mapM_pure]
  rfl

theorem mapM_map_self {α β : Type _} {read? : β → Option α} {written : α → β}
    (h : ∀ a, read? (written a) = some a) (l : List α) : (l.map written).mapM read? = some l := by
  rw [mapM_map_eq_some h, map_id']

/-! ## Cutting a list -/

theorem takeWhile_eq_nil_of_head? {α : Type _} {p : α → Bool} {l : List α}
    (h : l.head?.any p = false) : l.takeWhile p = [] := by
  cases l with
  | nil => rfl
  | cons a rest =>
    rw [head?_cons, Option.any_some] at h
    exact takeWhile_cons_of_neg (by simp [h])

theorem head?_any_append_eq_false {α : Type _} {p : α → Bool} {l : List α} (hne : l ≠ [])
    (h : ∀ a ∈ l, p a = false) (rest : List α) : (l ++ rest).head?.any p = false := by
  obtain ⟨a, l, rfl⟩ := exists_cons_of_ne_nil hne
  rw [cons_append, head?_cons, Option.any_some]
  exact h a mem_cons_self

theorem head?_any_eq_false_of_imp {α : Type _} {p q : α → Bool} {l : List α}
    (himp : ∀ a, p a = true → q a = true) (h : l.head?.any q = false) :
    l.head?.any p = false := by
  cases l with
  | nil => rfl
  | cons a rest =>
    rw [head?_cons, Option.any_some] at h ⊢
    exact Bool.eq_false_iff.2 fun ha => Bool.eq_false_iff.1 h (himp a ha)

/-- The elements in front of the first one that a run cannot take. -/
theorem takeWhile_append_of_head? {α : Type _} {p : α → Bool} {run rest : List α}
    (hrun : ∀ a ∈ run, p a = true) (hrest : rest.head?.any p = false) :
    (run ++ rest).takeWhile p = run := by
  rw [takeWhile_append_of_pos hrun, takeWhile_eq_nil_of_head? hrest, append_nil]

/-- The elements from the first one on that a run cannot take. -/
theorem dropWhile_append_of_head? {α : Type _} {p : α → Bool} {run rest : List α}
    (hrun : ∀ a ∈ run, p a = true) (hrest : rest.head?.any p = false) :
    (run ++ rest).dropWhile p = rest := by
  have hwhole := takeWhile_append_dropWhile (p := p) (l := run ++ rest)
  rw [takeWhile_append_of_head? hrun hrest] at hwhole
  exact append_cancel_left hwhole

/-- Two ways to cut a list behind a run that takes all that it can are one. -/
theorem eq_of_append_eq_append_of_run {α : Type _} {p : α → Bool} {run rest run' rest' : List α}
    (h : run ++ rest = run' ++ rest') (hrun : ∀ a ∈ run, p a = true)
    (hrest : rest.head?.any p = false) (hrun' : ∀ a ∈ run', p a = true)
    (hrest' : rest'.head?.any p = false) : run = run' ∧ rest = rest' := by
  obtain rfl : run = run' := by
    rw [← takeWhile_append_of_head? hrun hrest, h, takeWhile_append_of_head? hrun' hrest']
  exact ⟨rfl, append_cancel_left h⟩

/-- An element that is not in the first part of a list stands in the second one. -/
theorem exists_of_append_cons_eq_append {α : Type _} {a : α} {before behind front back : List α}
    (h : before ++ a :: behind = front ++ back) (ha : a ∉ front) :
    ∃ between, before = front ++ between ∧ back = between ++ a :: behind := by
  rcases append_eq_append_iff.1 h with ⟨between, rfl, hbetween⟩ | hbehind
  · cases between with
    | nil => exact ⟨[], by simp, hbetween.symm⟩
    | cons b between =>
      obtain rfl := (cons.inj hbetween).1
      exact absurd (mem_append_right _ mem_cons_self) ha
  · exact hbehind

/-- A list is cut in one way only in front of the first of some elements. -/
theorem eq_of_append_cons_eq_append_cons {α : Type _} {a : α} {front back front' back' : List α}
    (h : front ++ a :: back = front' ++ a :: back') (ha : a ∉ front) (ha' : a ∉ front') :
    front = front' ∧ back = back' := by
  obtain ⟨between, rfl, hback⟩ := exists_of_append_cons_eq_append h ha'
  cases between with
  | nil => exact ⟨append_nil front', (cons.inj hback).2.symm⟩
  | cons b between =>
    obtain rfl := (cons.inj hback).1
    exact absurd (mem_append_right _ mem_cons_self) ha

/-- A list with an element in a set is cut in front of the first one. -/
theorem exists_first_of_exists {α : Type _} {p : α → Bool} {l : List α}
    (h : ¬ ∀ a ∈ l, p a = false) :
    ∃ front a back, l = front ++ a :: back ∧ (∀ b ∈ front, p b = false) ∧ p a = true := by
  have hfind : (l.find? p).isSome := by
    rw [find?_isSome]
    simpa using h
  obtain ⟨a, ha⟩ := Option.isSome_iff_exists.1 hfind
  obtain ⟨hp, front, back, hl, hfront⟩ := find?_eq_some_iff_append.1 ha
  exact ⟨front, a, back, hl, fun b hb => by simpa using hfront b hb, hp⟩

/-- A list is cut in one way only at the first of its elements in a set. -/
theorem eq_of_append_cons_of_first {α : Type _} {p : α → Bool} {front back front' back' : List α}
    {a b : α} (h : front ++ a :: back = front' ++ b :: back') (hfront : ∀ c ∈ front, p c = false)
    (ha : p a = true) (hfront' : ∀ c ∈ front', p c = false) (hb : p b = true) :
    front = front' ∧ a = b ∧ back = back' := by
  obtain ⟨rfl, hrest⟩ := @eq_of_append_eq_append_of_run _ (!p ·) _ _ _ _ h
    (fun c hc => by simp [hfront c hc]) (by simp [ha]) (fun c hc => by simp [hfront' c hc])
    (by simp [hb])
  exact ⟨rfl, cons.inj hrest⟩

/-- A list is cut in one way only at the last of its elements in a set. -/
theorem eq_of_append_cons_of_last {α : Type _} {p : α → Bool} {front back front' back' : List α}
    {a b : α} (h : front ++ a :: back = front' ++ b :: back') (hback : ∀ c ∈ back, p c = false)
    (ha : p a = true) (hback' : ∀ c ∈ back', p c = false) (hb : p b = true) :
    front = front' ∧ a = b ∧ back = back' := by
  obtain ⟨hreverse, rfl, hfront⟩ := @eq_of_append_cons_of_first _ p back.reverse front.reverse
    back'.reverse front'.reverse a b (by simpa using congrArg reverse h)
    (fun c hc => hback c (mem_reverse.1 hc)) ha (fun c hc => hback' c (mem_reverse.1 hc)) hb
  exact ⟨reverse_injective hfront, rfl, reverse_injective hreverse⟩

/-! ## Sorting by numbers -/

theorem pairwise_mergeSort_key {α : Type _} (key : α → Nat) (l : List α) :
    (l.mergeSort fun a b => decide (key a ≤ key b)).Pairwise fun a b => key a ≤ key b := by
  have hsorted := @pairwise_mergeSort _ (fun a b => decide (key a ≤ key b))
    (fun a b c hab hbc =>
      decide_eq_true (Nat.le_trans (of_decide_eq_true hab) (of_decide_eq_true hbc)))
    (fun a b => by simpa using Nat.le_total (key a) (key b)) l
  exact hsorted.imp fun hle => of_decide_eq_true hle

/-- Elements with different numbers are sorted in one way only. -/
theorem mergeSort_eq_of_perm {α : Type _} (key : α → Nat) {l others : List α}
    (hkey : ∀ a ∈ l, ∀ b ∈ l, key a = key b → a = b) (h : l.Perm others) :
    (l.mergeSort fun a b => decide (key a ≤ key b)) =
      others.mergeSort fun a b => decide (key a ≤ key b) := by
  have hperm : (l.mergeSort fun a b => decide (key a ≤ key b)).Perm
      (others.mergeSort fun a b => decide (key a ≤ key b)) :=
    (mergeSort_perm l _).trans (h.trans (mergeSort_perm others _).symm)
  refine hperm.eq_of_pairwise (fun a b ha hb hab hba => ?_) (pairwise_mergeSort_key key l)
    (pairwise_mergeSort_key key others)
  exact hkey a (mem_mergeSort.1 ha) b (h.mem_iff.2 (mem_mergeSort.1 hb)) (Nat.le_antisymm hab hba)

/-- A list in strictly ascending order is what comes of sorting its elements. -/
theorem mergeSort_eq_of_perm_of_pairwise {α : Type _} (key : α → Nat) {l ascending : List α}
    (hascending : ascending.Pairwise fun a b => key a < key b) (h : l.Perm ascending) :
    (l.mergeSort fun a b => decide (key a ≤ key b)) = ascending := by
  have hnodup : (ascending.map key).Nodup :=
    pairwise_map.2 (hascending.imp fun hlt => Nat.ne_of_lt hlt)
  rw [mergeSort_eq_of_perm key (fun a ha b hb heq => inj_on_of_nodup_map hnodup
    (h.mem_iff.1 ha) (h.mem_iff.1 hb) heq) h]
  exact mergeSort_of_pairwise (hascending.imp fun hlt => decide_eq_true (Nat.le_of_lt hlt))

/-! ## First occurrences -/

section FirstOccurrences

variable {α : Type _} [BEq α] [LawfulBEq α]

theorem eraseDups_concat_of_mem {l : List α} {a : α} (h : a ∈ l) :
    (l ++ [a]).eraseDups = l.eraseDups := by
  rw [eraseDups_append]
  simp [removeAll, h]

theorem eraseDups_concat_of_not_mem {l : List α} {a : α} (h : a ∉ l) :
    (l ++ [a]).eraseDups = l.eraseDups ++ [a] := by
  rw [eraseDups_append]
  simp [removeAll, h, eraseDups_cons]

/-- First occurrences come in the order of their positions, so none is listed twice. -/
theorem pairwise_idxOf_eraseDups (l : List α) :
    l.eraseDups.Pairwise fun a b => l.idxOf a < l.idxOf b := by
  -- read from the right end: an element that is new at the end stands behind all others
  induction l using List.reverseRecOn with
  | nil => simp
  | append_singleton l a ih =>
    have hstable : ∀ x ∈ l.eraseDups, (l ++ [a]).idxOf x = l.idxOf x := fun x hx =>
      idxOf_append_of_mem (mem_eraseDups.1 hx)
    have hfront : l.eraseDups.Pairwise fun x y => (l ++ [a]).idxOf x < (l ++ [a]).idxOf y := by
      refine ih.imp_of_mem fun {x y} hx hy hlt => ?_
      rw [hstable x hx, hstable y hy]
      exact hlt
    by_cases ha : a ∈ l
    · rw [eraseDups_concat_of_mem ha]
      exact hfront
    · rw [eraseDups_concat_of_not_mem ha, pairwise_append]
      refine ⟨hfront, pairwise_singleton _ _, ?_⟩
      intro x hx y hy
      obtain rfl := mem_singleton.1 hy
      rw [hstable x hx, idxOf_append_of_notMem ha]
      exact Nat.lt_of_lt_of_le (idxOf_lt_length_of_mem (mem_eraseDups.1 hx)) (Nat.le_add_right _ _)

theorem nodup_eraseDups (l : List α) : l.eraseDups.Nodup :=
  (pairwise_idxOf_eraseDups l).imp fun {a b} hlt heq => by simp [heq] at hlt

/-- First occurrences stand in the list in the same order. -/
theorem eraseDups_sublist (l : List α) : l.eraseDups.Sublist l := by
  induction l using List.reverseRecOn with
  | nil => simp
  | append_singleton l a ih =>
    by_cases ha : a ∈ l
    · rw [eraseDups_concat_of_mem ha]
      exact ih.trans (sublist_append_left l [a])
    · rw [eraseDups_concat_of_not_mem ha]
      exact ih.append_right [a]

/-- First occurrences in a list of lists come in the order of the lists that hold them, and of
those in one list in the order that this list has. -/
theorem pairwise_eraseDups_flatMap {β : Type _} {f : β → List α} {r : α → α → Prop} {l : List β}
    (h : ∀ b ∈ l, (f b).Pairwise r) :
    (l.flatMap f).eraseDups.Pairwise fun x y =>
      l.findIdx (fun b => (f b).contains x) < l.findIdx (fun b => (f b).contains y) ∨
        l.findIdx (fun b => (f b).contains x) = l.findIdx (fun b => (f b).contains y) ∧ r x y := by
  -- read from the right end: what is new in the last list is found there first
  induction l using List.reverseRecOn with
  | nil => simp
  | append_singleton l b ih =>
    have hold : ∀ x ∈ (l.flatMap f).eraseDups,
        l.findIdx (fun b => (f b).contains x) < l.length := fun x hx => by
      obtain ⟨b, hb, hxb⟩ := mem_flatMap.1 (mem_eraseDups.1 hx)
      exact findIdx_lt_length.2 ⟨b, hb, contains_iff_mem.2 hxb⟩
    have hnew : ∀ x ∈ ((f b).removeAll (l.flatMap f)).eraseDups,
        (l ++ [b]).findIdx (fun b => (f b).contains x) = l.length := fun x hx => by
      obtain ⟨hxb, hxl⟩ := mem_filter.1 (mem_eraseDups.1 hx)
      have hxl : ∀ b ∈ l, x ∉ f b := by simpa using hxl
      have hnone : l.findIdx (fun b => (f b).contains x) = l.length := by
        rw [findIdx_eq_length]
        intro b hb
        simpa using hxl b hb
      rw [findIdx_append, hnone, if_neg (Nat.lt_irrefl _)]
      simp [hxb]
    rw [flatMap_append, flatMap_singleton, eraseDups_append, pairwise_append]
    refine ⟨?_, ?_, ?_⟩
    · refine (ih fun b hb => h b (mem_append_left _ hb)).imp_of_mem fun {x y} hx hy hxy => ?_
      rwa [findIdx_append, findIdx_append, if_pos (hold x hx), if_pos (hold y hy)]
    · have hsublist : ((f b).removeAll (l.flatMap f)).eraseDups.Sublist (f b) :=
        (eraseDups_sublist _).trans filter_sublist
      refine ((h b (mem_append_right _ mem_cons_self)).sublist hsublist).imp_of_mem
        fun {x y} hx hy hxy => ?_
      exact .inr ⟨(hnew x hx).trans (hnew y hy).symm, hxy⟩
    · intro x hx y hy
      left
      rw [hnew y hy, findIdx_append, if_pos (hold x hx)]
      exact hold x hx

/-- First occurrences of the elements that pass a test. -/
theorem eraseDups_filter (p : α → Bool) (l : List α) :
    (l.filter p).eraseDups = l.eraseDups.filter p := by
  induction l using List.reverseRecOn with
  | nil => simp
  | append_singleton l a ih =>
    rw [filter_append, filter_cons, filter_nil]
    by_cases ha : a ∈ l
    · rw [eraseDups_concat_of_mem ha, ← ih]
      by_cases hp : p a = true
      · rw [if_pos hp, eraseDups_concat_of_mem (mem_filter.2 ⟨ha, hp⟩)]
      · rw [if_neg hp, append_nil]
    · rw [eraseDups_concat_of_not_mem ha, filter_append, filter_cons, filter_nil, ← ih]
      by_cases hp : p a = true
      · rw [if_pos hp, eraseDups_concat_of_not_mem fun hmem => ha (mem_filter.1 hmem).1]
      · rw [if_neg hp, append_nil, append_nil]

/-- First occurrences of images under a map that merges none of the elements. -/
theorem eraseDups_map_of_injOn {β : Type _} [BEq β] [LawfulBEq β] {f : α → β} {l : List α}
    (h : ∀ a ∈ l, ∀ b ∈ l, f a = f b → a = b) : (l.map f).eraseDups = l.eraseDups.map f := by
  induction l using List.reverseRecOn with
  | nil => simp
  | append_singleton l a ih =>
    have ih := ih fun x hx y hy => h x (mem_append_left _ hx) y (mem_append_left _ hy)
    rw [map_append, map_singleton]
    by_cases ha : a ∈ l
    · rw [eraseDups_concat_of_mem ha, eraseDups_concat_of_mem (mem_map_of_mem ha), ih]
    · have hfa : f a ∉ l.map f := by
        intro hmem
        obtain ⟨b, hb, heq⟩ := mem_map.1 hmem
        have hba := h b (mem_append_left _ hb) a (mem_append_right _ mem_cons_self) heq
        exact ha (hba ▸ hb)
      rw [eraseDups_concat_of_not_mem ha, eraseDups_concat_of_not_mem hfa, ih, map_append,
        map_singleton]

/-- A list has fewer than two different elements exactly if all its elements are equal. -/
theorem length_eraseDups_lt_two_iff (l : List α) :
    l.eraseDups.length < 2 ↔ ∀ a ∈ l, ∀ b ∈ l, a = b := by
  constructor
  · intro hlt a ha b hb
    rw [← mem_eraseDups] at ha hb
    match hl : l.eraseDups with
    | [] => simp [hl] at ha
    | [c] => simp_all
    | _ :: _ :: rest =>
      rw [hl, length_cons, length_cons] at hlt
      omega
  · intro hall
    match hl : l.eraseDups with
    | [] => simp
    | [c] => simp
    | c :: d :: rest =>
      have hc : c ∈ l := mem_eraseDups.1 (by simp [hl])
      have hd : d ∈ l := mem_eraseDups.1 (by simp [hl])
      have hnodup := nodup_eraseDups l
      rw [hl, hall c hc d hd] at hnodup
      simp at hnodup

end FirstOccurrences

/-! ## Grouping by keys -/

/-- The groups that elements form by their keys hold each of them as often as the list does. -/
theorem flatMap_filter_perm {α β : Type _} [DecidableEq β] (key : α → β) {keys : List β}
    (hnodup : keys.Nodup) {l : List α} (h : ∀ a ∈ l, key a ∈ keys) :
    (keys.flatMap fun k => l.filter fun a => key a = k).Perm l := by
  induction keys generalizing l with
  | nil =>
    have hnil : l = [] := eq_nil_iff_forall_not_mem.2 fun a ha => not_mem_nil (h a ha)
    simp [hnil]
  | cons k rest ih =>
    obtain ⟨hk, hrest⟩ := nodup_cons.1 hnodup
    -- the later groups are those of the elements that are not in the first
    have hlater : (rest.flatMap fun other => l.filter fun a => key a = other) =
        rest.flatMap fun other => (l.filter fun a => !decide (key a = k)).filter
          fun a => key a = other := by
      refine flatMap_congr fun other hother => ?_
      rw [filter_filter]
      refine filter_congr fun a _ => ?_
      have hne : other ≠ k := fun heq => hk (heq ▸ hother)
      by_cases hkey : key a = other
      · simp [hkey, hne]
      · simp [hkey]
    have hothers : ∀ a ∈ l.filter (fun a => !decide (key a = k)), key a ∈ rest := by
      intro a ha
      obtain ⟨hmem, hne⟩ := mem_filter.1 ha
      exact (mem_cons.1 (h a hmem)).resolve_left (by simpa using hne)
    rw [flatMap_cons, hlater]
    exact ((ih hrest hothers).append_left _).trans (filter_append_perm _ l)

/-! ## Runs of an ordered list -/

section Runs

variable {α : Type _} {r : α → α → Prop} {same : α → α → Bool} {l : List α}
variable (htrans : ∀ a b c, r a b → r b c → r a c) (hrefl : ∀ a, r a a)
variable (hsame : ∀ a b, same a b = true ↔ r a b ∧ r b a)

include htrans hrefl hsame

/-- Elements of one run are equal with respect to the order. -/
theorem same_of_mem_splitBy {run : List α} (hrun : run ∈ l.splitBy same) :
    ∀ a ∈ run, ∀ b ∈ run, same a b = true := by
  have : Trans (fun a b => same a b = true) (fun a b => same a b = true)
      (fun a b => same a b = true) := ⟨fun {a b c} hab hbc => by
    rw [hsame] at hab hbc ⊢
    exact ⟨htrans a b c hab.1 hbc.1, htrans c b a hbc.2 hab.2⟩⟩
  have : Std.Symm fun a b => same a b = true :=
    ⟨fun a b hab => (hsame b a).2 ((hsame a b).1 hab).symm⟩
  have hpair : run.Pairwise fun a b => same a b = true := (isChain_of_mem_splitBy hrun).pairwise
  intro a ha b hb
  by_cases hab : a = b
  · subst hab
    exact (hsame a a).2 ⟨hrefl a, hrefl a⟩
  · exact hpair.forall ha hb hab

omit hrefl in
/-- What holds of neighbouring runs of an ordered list holds of any two. -/
private theorem pairwise_runs {runs : List (List α)} (hordered : runs.flatten.Pairwise r)
    (hwithin : ∀ run ∈ runs, ∀ a ∈ run, ∀ b ∈ run, same a b = true)
    (hbetween : runs.IsChain fun a b => ∃ ha hb, same (a.getLast ha) (b.head hb) = false) :
    runs.Pairwise fun run later => ∀ a ∈ run, ∀ b ∈ later, r a b ∧ ¬ r b a := by
  induction runs with
  | nil => exact Pairwise.nil
  | cons run rest ih =>
    rw [flatten_cons, pairwise_append] at hordered
    obtain ⟨-, hrest, hacross⟩ := hordered
    refine pairwise_cons.2
      ⟨?_, ih hrest (fun g hg => hwithin g (mem_cons_of_mem _ hg)) hbetween.tail⟩
    intro later hlater a ha b hb
    have hb' : b ∈ rest.flatten := mem_flatten.2 ⟨later, hlater, hb⟩
    refine ⟨hacross a ha b hb', fun hba => ?_⟩
    -- otherwise the last element of `run` would equal the first of the next run
    cases rest with
    | nil => simp at hlater
    | cons next rest =>
      obtain ⟨hrun, hnext, hne⟩ := (isChain_cons_cons.1 hbetween).1
      have hlast : r a (run.getLast hrun) :=
        ((hsame _ _).1 (hwithin run mem_cons_self a ha _ (getLast_mem hrun))).1
      have hhead : r (next.head hnext) b := by
        rcases mem_cons.1 hlater with rfl | hlater
        · exact ((hsame _ _).1 (hwithin later (by simp) _ (head_mem hnext) b hb)).1
        · rw [flatten_cons, pairwise_append] at hrest
          exact hrest.2.2 _ (head_mem hnext) b (mem_flatten.2 ⟨later, hlater, hb⟩)
      have hforth := hacross _ (getLast_mem hrun) (next.head hnext)
        (mem_flatten.2 ⟨next, mem_cons_self, head_mem hnext⟩)
      have hback := htrans _ _ _ hhead (htrans _ _ _ hba hlast)
      rw [(hsame _ _).2 ⟨hforth, hback⟩] at hne
      exact absurd hne (by decide)

/-- The runs of an ordered list are strictly ascending. -/
theorem pairwise_splitBy (hordered : l.Pairwise r) :
    (l.splitBy same).Pairwise fun run later => ∀ a ∈ run, ∀ b ∈ later, r a b ∧ ¬ r b a :=
  pairwise_runs htrans hsame (by rwa [flatten_splitBy])
    (fun _ hrun => same_of_mem_splitBy htrans hrefl hsame hrun)
    (isChain_getLast_head_splitBy same l)

/-- A run of an ordered list holds all elements that are equal to any of its own. -/
theorem mem_of_mem_splitBy_iff (hordered : l.Pairwise r) {run : List α}
    (hrun : run ∈ l.splitBy same) {a : α} (ha : a ∈ run) (b : α) :
    b ∈ run ↔ b ∈ l ∧ same a b = true := by
  constructor
  · intro hb
    refine ⟨?_, same_of_mem_splitBy htrans hrefl hsame hrun a ha b hb⟩
    rw [← flatten_splitBy same l]
    exact mem_flatten.2 ⟨run, hrun, hb⟩
  · rintro ⟨hb, hab⟩
    rw [← flatten_splitBy same l] at hb
    obtain ⟨other, hother, hb⟩ := mem_flatten.1 hb
    have hdiffer : (l.splitBy same).Pairwise fun g h => ∀ x ∈ g, ∀ y ∈ h, ¬ (r x y ∧ r y x) :=
      (pairwise_splitBy htrans hrefl hsame hordered).imp fun hlt x hx y hy hxy =>
        (hlt x hx y hy).2 hxy.2
    have : Std.Symm fun g h : List α => ∀ x ∈ g, ∀ y ∈ h, ¬ (r x y ∧ r y x) :=
      ⟨fun g h hgh x hx y hy hxy => hgh y hy x hx hxy.symm⟩
    by_cases heq : run = other
    · rw [heq]
      exact hb
    · exact absurd ((hsame a b).1 hab) (hdiffer.forall hrun hother heq a ha b hb)

end Runs

/-! ## Runs of a sorted list -/

section SortedRuns

variable {α : Type _} {le same : α → α → Bool} {l : List α}
variable (htrans : ∀ a b c, le a b = true → le b c = true → le a c = true)
variable (htotal : ∀ a b, (le a b || le b a) = true)
variable (hsame : ∀ a b, same a b = true ↔ le a b = true ∧ le b a = true)

include htrans htotal hsame

/-- The runs of a sorted list are strictly ascending. -/
theorem pairwise_splitBy_mergeSort :
    ((l.mergeSort le).splitBy same).Pairwise fun run later =>
      ∀ a ∈ run, ∀ b ∈ later, le a b = true ∧ ¬ le b a = true :=
  pairwise_splitBy htrans (fun a => by simpa using htotal a a) hsame
    (pairwise_mergeSort htrans htotal l)

/-- A run of a sorted list holds all elements that are equal to any of its own. -/
theorem mem_iff_of_mem_splitBy_mergeSort {run : List α}
    (hrun : run ∈ (l.mergeSort le).splitBy same) {a : α} (ha : a ∈ run) (b : α) :
    b ∈ run ↔ b ∈ l ∧ same a b = true := by
  rw [mem_of_mem_splitBy_iff htrans (fun a => by simpa using htotal a a) hsame
    (pairwise_mergeSort htrans htotal l) hrun ha, mem_mergeSort]

omit htrans htotal hsame in
/-- Every element is in some run. -/
theorem exists_mem_splitBy_mergeSort {a : α} (ha : a ∈ l) :
    ∃ run ∈ (l.mergeSort le).splitBy same, a ∈ run := by
  rw [← mem_flatten, flatten_splitBy, mem_mergeSort]
  exact ha

end SortedRuns

end List
