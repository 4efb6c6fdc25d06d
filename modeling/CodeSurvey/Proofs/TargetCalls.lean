import Mathlib.Data.List.Infix
import CodeSurvey.Proofs.HeaderParts
import CodeSurvey.Proofs.ImportLines

/-!
# Calls with a target

A require call or an import call has a quoted target alone between its parentheses. What it matches
can start in front of another call and run over its start only by taking the first quote of that
call for its own last one. Then a closing parenthesis follows, so the target of the other call
starts with it. All other calls are found.

## Key results

- `describes_targetCall_iff`: what the pattern of a call describes
- `TargetCall.closesEarly_of_within`: a call that starts within another one closes early
- `TargetCall.mem_groups`: the target of any other call is found
- `mem_importTargets_and_keepsFirst`: what the imported targets of a text are
-/

namespace CodeSurvey

open Text (byteLength isBlank)
open Pattern (AllBlank Unquoted isQuote targetCall staticImport requireCall dynamicImport)

/-- What stands behind the opening parenthesis of a call with a quoted target alone. -/
structure TargetCall where
  lead : List Char
  opening : Char
  target : List Char
  closing : Char
  trail : List Char
  allBlank_lead : AllBlank lead
  isQuote_opening : isQuote opening = true
  unquoted_target : Unquoted target
  target_ne_nil : target ≠ []
  isQuote_closing : isQuote closing = true
  allBlank_trail : AllBlank trail

/-- The name of a function and the parenthesis behind it. -/
def calleeText (function : String) : List Char :=
  (function ++ "(").toList

/-- The name of a function that is called with targets. No call starts within the name of another
one, nor with a character that stands in a call outside its name and its target. -/
structure IsCallee (function : String) : Prop where
  unquoted : Unquoted (calleeText function)
  unbordered : ∀ back ∈ (calleeText function).tails, back ≠ [] → back <+: calleeText function →
    back = calleeText function
  plain_head : ∃ c rest, calleeText function = c :: rest ∧ isBlank c = false ∧
    isQuote c = false ∧ c ≠ ')'

theorem isCallee_require : IsCallee "require" :=
  ⟨by decide, by decide, 'r', "equire(".toList, by decide, by decide, by decide, by decide⟩

theorem isCallee_import : IsCallee "import" :=
  ⟨by decide, by decide, 'i', "mport(".toList, by decide, by decide, by decide, by decide⟩

theorem isQuote_of_isBlank {c : Char} (h : isBlank c = true) : isQuote c = false := by
  by_contra hquote
  simp only [Bool.not_eq_false, isQuote, Bool.or_eq_true, beq_iff_eq] at hquote
  rcases hquote with (rfl | rfl) | rfl <;> exact absurd h (by decide)

theorem unquoted_of_allBlank {text : List Char} (h : AllBlank text) : Unquoted text :=
  fun c hc => isQuote_of_isBlank (h c hc)

namespace TargetCall

/-- The part of a call behind its target. -/
def ending (call : TargetCall) : List Char :=
  call.closing :: (call.trail ++ [')'])

/-- The part of a call behind the name of the function. -/
def arguments (call : TargetCall) : List Char :=
  call.lead ++ call.opening :: (call.target ++ call.ending)

/-- The characters of a call of a function. -/
def text (call : TargetCall) (function : String) : List Char :=
  calleeText function ++ call.arguments

/-- Behind the white space at its start, if there is any, the target goes on with a closing
parenthesis. -/
def ClosesEarly (call : TargetCall) : Prop :=
  (call.target.dropWhile isBlank).head? = some ')'

instance (call : TargetCall) : Decidable call.ClosesEarly :=
  inferInstanceAs (Decidable (_ = _))

/-- Where the target stands in a call of a function. -/
def span (call : TargetCall) (function : String) : Nat × Nat :=
  let start := (calleeText function).length + (call.lead.length + 1)
  (start, start + call.target.length)

theorem unquoted_lead (call : TargetCall) : Unquoted call.lead :=
  unquoted_of_allBlank call.allBlank_lead

theorem unquoted_before_opening (call : TargetCall) {function : String}
    (hcallee : IsCallee function) : Unquoted (calleeText function ++ call.lead) :=
  Pattern.unquoted_append_iff.2 ⟨hcallee.unquoted, call.unquoted_lead⟩

theorem text_ne_nil (call : TargetCall) (function : String) : call.text function ≠ [] := by
  simp [text, arguments]

/-- What is kept of a call is its target. -/
theorem keeps_target (call : TargetCall) (function : String) :
    ((call.text function).take (call.span function).2).drop (call.span function).1 =
      call.target := by
  have htext : call.text function =
      (calleeText function ++ (call.lead ++ [call.opening])) ++ (call.target ++ call.ending) := by
    simp [text, arguments]
  have hlength : (calleeText function).length + (call.lead.length + 1) =
      (calleeText function ++ (call.lead ++ [call.opening])).length := by simp
  rw [htext, span, hlength, List.take_length_add_append, List.drop_left, List.take_left]

end TargetCall

/-- The pattern of a call describes the calls of the function. -/
theorem describes_targetCall_iff {function : String} {stretch : List Char}
    {kept : Option (Nat × Nat)} :
    (targetCall function).Describes stretch kept ↔
      ∃ call : TargetCall, stretch = call.text function ∧ kept = some (call.span function) := by
  constructor
  · rintro ⟨_, _, _, _, rfl, ⟨rfl, rfl⟩, ⟨lead, _, _, _, rfl, ⟨hlead, rfl⟩, ⟨_, _, _, _, rfl,
      hquoted, ⟨trail, _, _, _, rfl, ⟨htrail, rfl⟩, hclose, rfl⟩, rfl⟩, rfl⟩, rfl⟩
    obtain ⟨rfl, rfl⟩ := Pattern.describes_char_iff.1 hclose
    obtain ⟨opening, target, closing, rfl, -, hopening, htarget, hne, hclosing, rfl⟩ :=
      Pattern.describes_quotedTarget_iff.1 hquoted
    refine ⟨⟨lead, opening, target, closing, trail, hlead, hopening, htarget, hne, hclosing,
      htrail⟩, ?_, ?_⟩
    · simp [TargetCall.text, TargetCall.arguments, TargetCall.ending, calleeText]
    · simp [TargetCall.span, calleeText]
      omega
  · rintro ⟨call, rfl, rfl⟩
    have hquoted := Pattern.describes_quotedTarget_iff.2 ⟨call.opening, call.target, call.closing,
      rfl, List.forall_mem_nil _, call.isQuote_opening, call.unquoted_target, call.target_ne_nil,
      call.isQuote_closing, rfl⟩
    refine ⟨calleeText function, call.arguments, none, _, rfl, ⟨rfl, rfl⟩, ⟨call.lead, _, none, _,
      rfl, ⟨call.allBlank_lead, rfl⟩, ⟨_, call.trail ++ [')'], _, none, ?_, hquoted,
      ⟨call.trail, [')'], none, none, rfl, ⟨call.allBlank_trail, rfl⟩,
        Pattern.describes_char_iff.2 ⟨rfl, rfl⟩, rfl⟩, rfl⟩, rfl⟩, ?_⟩
    · simp [TargetCall.ending]
    · simp [TargetCall.span]
      omega

namespace TargetCall

section Overlap

variable {function : String} {outer inner : TargetCall} {rest beyond : List Char}

/-- Calls that start at one place have one target. -/
theorem target_eq_of_append_eq
    (h : outer.text function ++ beyond = inner.text function ++ rest) :
    outer.target = inner.target := by
  simp only [text, arguments, List.append_assoc, List.append_cancel_left_eq,
    List.cons_append] at h
  obtain ⟨-, -, htarget⟩ := List.eq_of_append_cons_of_first h outer.unquoted_lead
    outer.isQuote_opening inner.unquoted_lead inner.isQuote_opening
  exact (List.eq_of_append_cons_of_first htarget outer.unquoted_target outer.isQuote_closing
    inner.unquoted_target inner.isQuote_closing).1

/-- A target that is cut where only white space stands before a closing parenthesis closes early. -/
theorem closesEarly_of_append_eq {blank : List Char} (hblank : AllBlank blank)
    (h : inner.target ++ inner.ending ++ rest = blank ++ ')' :: beyond) : inner.ClosesEarly := by
  have hdrop : (inner.target ++ (inner.ending ++ rest)).dropWhile isBlank = ')' :: beyond := by
    rw [← List.append_assoc, h, List.dropWhile_append_of_pos hblank]
    rfl
  rw [List.dropWhile_append] at hdrop
  split at hdrop
  · -- a target that is blank throughout is followed by a quote
    have hclosing : isBlank inner.closing = false := by
      by_contra hclosing
      have hquote := isQuote_of_isBlank (by simpa using hclosing)
      rw [inner.isQuote_closing] at hquote
      cases hquote
    rw [ending, List.cons_append, List.dropWhile_cons_of_neg (by simp [hclosing])] at hdrop
    have hquote := inner.isQuote_closing
    rw [(List.cons.inj hdrop).1] at hquote
    exact absurd hquote (by decide)
  · rename_i hne
    rw [List.isEmpty_iff] at hne
    obtain ⟨c, target, htarget⟩ := List.exists_cons_of_ne_nil hne
    rw [htarget] at hdrop
    rw [ClosesEarly, htarget, (List.cons.inj hdrop).1]
    rfl

/-- No call starts within the name of another one. -/
theorem exists_of_between_ne_nil {between : List Char} (hcallee : IsCallee function)
    (h : outer.text function ++ beyond = between ++ (inner.text function ++ rest))
    (hne : between ≠ []) :
    ∃ behind, between = calleeText function ++ behind ∧
      outer.arguments ++ beyond = behind ++ (inner.text function ++ rest) := by
  rw [text, List.append_assoc] at h
  rcases List.append_eq_append_iff.1 h with ⟨behind, hbetween, hrest⟩ | ⟨back, hname, hback⟩
  · exact ⟨behind, hbetween, hrest⟩
  · by_cases hnil : back = []
    · exact ⟨[], by simpa [hnil] using hname.symm, by simpa [hnil] using hback.symm⟩
    · -- the end of the name would be the start of a name
      have hlength : back.length < (calleeText function).length := by
        have hpos := List.length_pos_iff.2 hne
        rw [hname, List.length_append]
        omega
      have hsuffix : back ∈ (calleeText function).tails :=
        (List.mem_tails _ _).2 ⟨between, hname.symm⟩
      have hprefix : back <+: calleeText function :=
        List.prefix_of_prefix_length_le ⟨_, hback.symm⟩
          ⟨inner.arguments ++ rest, by rw [text, List.append_assoc]⟩ (Nat.le_of_lt hlength)
      rw [hcallee.unbordered back hsuffix hnil hprefix] at hlength
      omega

/-- A call that starts within another one closes early. -/
theorem closesEarly_of_within {between : List Char} (hcallee : IsCallee function)
    (h : outer.text function ++ beyond = between ++ (inner.text function ++ rest))
    (hne : between ≠ []) (hlt : between.length < (outer.text function).length) :
    inner.ClosesEarly := by
  obtain ⟨behind, rfl, harguments⟩ := exists_of_between_ne_nil hcallee h hne
  obtain ⟨c, name, hname, hblank, hquote, hparenthesis⟩ := hcallee.plain_head
  have hstart : inner.text function ++ rest = c :: (name ++ inner.arguments ++ rest) := by
    rw [text, hname]
    simp
  have hcut : behind ++ c :: (name ++ inner.arguments ++ rest) =
      (outer.lead ++ [outer.opening]) ++ (outer.target ++ (outer.ending ++ beyond)) := by
    rw [← hstart, ← harguments]
    simp [arguments]
  -- the call starts behind the first quote, where no white space stands
  have hlead : c ∉ outer.lead ++ [outer.opening] := by
    rw [List.mem_append, List.mem_singleton, not_or]
    refine ⟨outer.allBlank_lead.not_mem hblank, ?_⟩
    rintro rfl
    rw [outer.isQuote_opening] at hquote
    cases hquote
  obtain ⟨within, rfl, hwithin⟩ := List.exists_of_append_cons_eq_append hcut hlead
  rcases List.append_eq_append_iff.1 hwithin with ⟨later, rfl, hending⟩ | ⟨last, hlast, hcall⟩
  · -- behind the target stands nothing with which a call starts
    have hnot : c ∉ outer.ending := by
      simp only [ending, List.mem_cons, List.mem_append, List.not_mem_nil, or_false, not_or]
      refine ⟨?_, outer.allBlank_trail.not_mem hblank, hparenthesis⟩
      rintro rfl
      rw [outer.isQuote_closing] at hquote
      cases hquote
    obtain ⟨more, rfl, -⟩ := List.exists_of_append_cons_eq_append hending.symm hnot
    simp only [text, arguments, List.length_append, List.length_cons, List.length_nil] at hlt
    omega
  · -- the call starts within the target, and its first quote ends the target
    have hunquoted : Unquoted last := by
      have htarget := outer.unquoted_target
      rw [hlast] at htarget
      exact (Pattern.unquoted_append_iff.1 htarget).2
    have hquotes : (calleeText function ++ inner.lead) ++
        inner.opening :: (inner.target ++ inner.ending ++ rest) =
          last ++ outer.closing :: (outer.trail ++ ')' :: beyond) := by
      have hsame := hstart.trans hcall
      simpa [text, arguments, ending] using hsame
    obtain ⟨-, -, hrest⟩ := List.eq_of_append_cons_of_first hquotes
      (inner.unquoted_before_opening hcallee) inner.isQuote_opening hunquoted outer.isQuote_closing
    exact closesEarly_of_append_eq outer.allBlank_trail hrest

end Overlap

/-- The matches of the pattern of a call are calls of the function. -/
theorem exists_of_mem_findAll {function : String} {text : List Char} {found : Match}
    (h : found ∈ (targetCall function).findAll text) :
    ∃ (call : TargetCall) (front back : List Char), text = front ++ (call.text function ++ back) ∧
      found = ⟨byteLength front, byteLength (front ++ call.text function),
        some (String.ofList call.target)⟩ := by
  obtain ⟨front, stretch, back, kept, rfl, hdescribes, hstart, hstop, hgroup⟩ :=
    Pattern.exists_describes_of_mem_findAll h
  obtain ⟨call, rfl, rfl⟩ := describes_targetCall_iff.1 hdescribes
  rw [Option.map_some, call.keeps_target] at hgroup
  exact ⟨call, front, back, rfl, by rw [← hstart, ← hstop, ← hgroup]⟩

/-- The target of a call is found, unless the call closes early. -/
theorem mem_groups {function : String} (hcallee : IsCallee function) (call : TargetCall)
    {text front back : List Char} (htext : text = front ++ (call.text function ++ back))
    (hearly : ¬ call.ClosesEarly) :
    String.ofList call.target ∈ (targetCall function).groups text := by
  obtain ⟨found, hfound, before, between, hfront, hstart, hlt⟩ :=
    Pattern.exists_mem_findAll_reaching (p := targetCall function)
      (fun h => by
        obtain ⟨other, rfl, -⟩ := describes_targetCall_iff.1 h
        exact other.text_ne_nil function)
      htext (describes_targetCall_iff.2 ⟨call, rfl, rfl⟩)
  obtain ⟨outer, before', beyond, htext', rfl⟩ := exists_of_mem_findAll hfound
  rw [htext', hfront, List.append_assoc] at htext
  obtain ⟨rfl, hcut⟩ := Text.eq_of_append_eq_append htext hstart
  refine List.mem_filterMap.2 ⟨_, hfound, ?_⟩
  by_cases hne : between = []
  · rw [hne, List.nil_append] at hcut
    rw [target_eq_of_append_eq hcut]
  · refine absurd (closesEarly_of_within hcallee hcut hne ?_) hearly
    -- the call starts in front of the last byte of the match
    by_contra hle
    have hprefix : outer.text function <+: between :=
      List.prefix_of_prefix_length_le ⟨beyond, hcut⟩ (List.prefix_append _ _) (by omega)
    obtain ⟨more, rfl⟩ := hprefix
    rw [hfront] at hlt
    simp only [Text.byteLength_append] at hlt
    omega

end TargetCall

/-! ## All targets of a text -/

/-- The matches of a pattern in a text from left to right. None overlaps another, each is a stretch
that the pattern describes, and wherever the pattern describes a stretch a match starts or runs over
the place. -/
structure IsScan (p : Pattern) (text : List Char) (found : List Match) : Prop where
  ordered : found.Pairwise fun earlier later => earlier.stop ≤ later.start
  written : ∀ one ∈ found, ∃ front stretch back kept, text = front ++ (stretch ++ back) ∧
    p.Describes stretch kept ∧ one.start = byteLength front ∧
    one.stop = byteLength (front ++ stretch) ∧
    one.group = kept.map fun span => String.ofList ((stretch.take span.2).drop span.1)
  complete : ∀ front stretch back kept, text = front ++ (stretch ++ back) →
    p.Describes stretch kept → ∃ one ∈ found, one.start = byteLength front ∨
      one.start < byteLength front ∧ byteLength front < one.stop

theorem isScan_findAll (p : Pattern) (text : List Char) : IsScan p text (p.findAll text) :=
  ⟨Pattern.pairwise_findAll p text, fun _ h => Pattern.exists_describes_of_mem_findAll h,
    fun _ _ _ _ htext h => Pattern.exists_mem_findAll_of_describes htext h⟩

/-- The names of a list, each where it comes first. -/
structure KeepsFirst (names kept : List String) : Prop where
  nodup : kept.Nodup
  mem_iff : ∀ name, name ∈ kept ↔ name ∈ names
  ordered : kept.Pairwise fun a b => names.idxOf a < names.idxOf b

theorem keepsFirst_firstOccurrences (names : List String) :
    KeepsFirst names (firstOccurrences names) :=
  ⟨List.nodup_eraseDups names, fun _ => List.mem_eraseDups, List.pairwise_idxOf_eraseDups names⟩

theorem mem_importTargets_iff {text : List Char} {target : String} :
    target ∈ importTargets text ↔ target ∈ staticImport.groups text ∨
      ∃ function ∈ ["require", "import"], target ∈ (targetCall function).groups text := by
  rw [importTargets, (keepsFirst_firstOccurrences _).mem_iff, List.mem_append, List.mem_append,
    or_assoc]
  simp [requireCall, dynamicImport]

/-- A target is not empty and holds no quote. -/
theorem exists_target_of_mem {text : List Char} {target : String}
    (h : target ∈ importTargets text) :
    ∃ characters, target = String.ofList characters ∧ characters ≠ [] ∧ Unquoted characters := by
  rcases mem_importTargets_iff.1 h with hstatic | ⟨function, -, hcall⟩
  · obtain ⟨found, hfound, hgroup⟩ := List.mem_filterMap.1 hstatic
    obtain ⟨_, _, _, _, _, _, characters, _, -, hquotes, rfl⟩ :=
      ImportLine.exists_quotesTarget_of_mem_findAll hfound
    exact ⟨characters, (Option.some.inj hgroup).symm, hquotes.target_ne_nil,
      hquotes.unquoted_target⟩
  · obtain ⟨found, hfound, hgroup⟩ := List.mem_filterMap.1 hcall
    obtain ⟨call, _, _, -, rfl⟩ := TargetCall.exists_of_mem_findAll hfound
    exact ⟨call.target, (Option.some.inj hgroup).symm, call.target_ne_nil, call.unquoted_target⟩

/-- The target of every require call and import call of a text is listed, unless it closes early. No
target is listed twice, none is empty, and none holds a quote. The list keeps the targets of import
declarations, then those of require calls, then those of import calls, each where it comes first. -/
theorem mem_importTargets_and_keepsFirst (text : List Char) :
    (∀ function ∈ ["require", "import"], ∀ (call : TargetCall) (front back : List Char),
      text = front ++ (call.text function ++ back) → ¬ call.ClosesEarly →
        String.ofList call.target ∈ importTargets text) ∧
    (importTargets text).Nodup ∧
    (∀ target ∈ importTargets text, target ≠ "" ∧ Unquoted target.toList) ∧
    ∃ declarations requires imports, IsScan staticImport text declarations ∧
      IsScan requireCall text requires ∧ IsScan dynamicImport text imports ∧
      KeepsFirst ((declarations ++ requires ++ imports).filterMap Match.group)
        (importTargets text) := by
  have hkeeps : KeepsFirst (staticImport.groups text ++ requireCall.groups text ++
      dynamicImport.groups text) (importTargets text) := keepsFirst_firstOccurrences _
  refine ⟨?_, hkeeps.nodup, ?_, _, _, _, isScan_findAll _ _, isScan_findAll _ _,
    isScan_findAll _ _, ?_⟩
  · intro function hfunction call front back htext hearly
    have hcallee : IsCallee function := by
      rcases List.mem_cons.1 hfunction with rfl | himport
      · exact isCallee_require
      · rw [List.mem_singleton.1 himport]
        exact isCallee_import
    exact mem_importTargets_iff.2 (.inr ⟨function, hfunction,
      call.mem_groups hcallee htext hearly⟩)
  · intro target htarget
    obtain ⟨characters, rfl, hne, hunquoted⟩ := exists_target_of_mem htarget
    rw [String.toList_ofList]
    exact ⟨by simpa using hne, hunquoted⟩
  · rw [List.filterMap_append, List.filterMap_append]
    exact hkeeps

/-- A call on the line behind one that is not closed, with a parenthesis in its target. -/
def reopened : TargetCall :=
  ⟨[' '], '"', "./b)c".toList, '\x27', [], by simp [AllBlank, isBlank], by decide, by decide,
    by decide, by decide, List.forall_mem_nil _⟩

theorem mem_importTargets_reopened :
    "require" ∈ ["require", "import"] ∧
      "f(require(\x27a\nrequire( \"./b)c\x27); import(\"x\")".toList =
        "f(require(\x27a\n".toList ++ (reopened.text "require" ++ "; import(\"x\")".toList) ∧
      ¬ reopened.ClosesEarly ∧
      "./b)c" ∈ importTargets "f(require(\x27a\nrequire( \"./b)c\x27); import(\"x\")".toList := by
  have htext : "f(require(\x27a\nrequire( \"./b)c\x27); import(\"x\")".toList =
      "f(require(\x27a\n".toList ++ (reopened.text "require" ++ "; import(\"x\")".toList) := by
    decide +kernel
  have hearly : ¬ reopened.ClosesEarly := by decide +kernel
  exact ⟨by decide, htext, hearly, (mem_importTargets_and_keepsFirst _).1 "require" (by decide)
    reopened _ _ htext hearly⟩

end CodeSurvey
