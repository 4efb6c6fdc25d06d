import CodeSurvey.Json.Parser
import CodeSurvey.Proofs.JsonTokens

/-!
# JSON values as texts

A value that is written in either layout is read back. The written text splits into the tokens of
the value, and the reader puts every value that it has read in whole where it belongs.

## Key results

- `reads_write`: a written value reads as its tokens
- `foldlM_step_tokens`: the tokens of a value are read as the value
- `parse?_write`: what is written is read back
-/

namespace CodeSurvey.Json

open JsonToken (Reads ReadsAlways Ends)

/-- A value that is told apart by how it is written: its texts and names spell characters, and its
numbers are canonical. -/
inductive IsPrintable : Json → Prop where
  | null : IsPrintable null
  | bool (value : Bool) : IsPrintable (bool value)
  | number {value : JsonNumber} (hnumber : value.IsCanonical) : IsPrintable (number value)
  | text (value : String) : IsPrintable (text (some value))
  | array {items : List Json} (hitems : ∀ item ∈ items, IsPrintable item) :
      IsPrintable (array items)
  | object {members : List (Option String × Json)}
      (hnames : ∀ member ∈ members, member.1.isSome = true)
      (hvalues : ∀ member ∈ members, IsPrintable member.2) : IsPrintable (object members)

mutual

/-- The tokens of which a value is made. -/
def tokens : Json → List JsonToken
  | null => [.null]
  | bool value => [.bool value]
  | number value => [.number value]
  | text value => [.text value]
  | array items => .openArray :: ([.comma].intercalate (itemTokens items) ++ [.closeArray])
  | object members => .openObject :: ([.comma].intercalate (memberTokens members) ++ [.closeObject])

/-- The tokens of the items of an array. -/
def itemTokens : List Json → List (List JsonToken)
  | [] => []
  | item :: rest => tokens item :: itemTokens rest

/-- The tokens of the members of an object. -/
def memberTokens : List (Option String × Json) → List (List JsonToken)
  | [] => []
  | (name, value) :: rest => (.text name :: .colon :: tokens value) :: memberTokens rest

end

/-! ## Writing -/

/-- A word that reads as a token wherever it stands. -/
theorem readsAlways_word {word : String} {token : JsonToken} (c : Char) (rest : List Char)
    (hword : word.toList = c :: rest) (hspace : JsonToken.isSpace c = false)
    (hread : ∀ back, JsonToken.read (c :: (rest ++ back)) = some (token, back)) :
    ReadsAlways word.toList [token] := by
  rw [hword]
  exact JsonToken.readsAlways_of_read hspace hread

theorem readsAlways_comma : ReadsAlways ",".toList [.comma] :=
  readsAlways_word ',' [] rfl rfl fun _ => rfl

theorem readsAlways_newline (layout : Layout) : ReadsAlways layout.newline.toList [] := by
  cases layout with
  | compact => exact fun _ _ => rfl
  | indented level =>
    rw [Layout.newline, String.toList_ofList]
    refine JsonToken.readsAlways_of_isSpace (List.forall_mem_cons.2 ⟨rfl, fun c hc => ?_⟩)
    rw [List.eq_of_mem_replicate hc]
    rfl

theorem ends_newline (layout : Layout) : Ends layout.newline.toList := by
  cases layout with
  | compact => rfl
  | indented level =>
    rw [Layout.newline, String.toList_ofList]
    rfl

theorem readsAlways_colon (layout : Layout) : ReadsAlways layout.colon.toList [.colon] := by
  cases layout with
  | compact => exact readsAlways_word ':' [] rfl rfl fun _ => rfl
  | indented level =>
    have hmark : ReadsAlways ":".toList [.colon] := readsAlways_word ':' [] rfl rfl fun _ => rfl
    have htext : ": ".toList = ":".toList ++ [' '] := by decide
    rw [Layout.colon, htext]
    exact hmark.append (JsonToken.readsAlways_of_isSpace (List.forall_mem_singleton.2 rfl))

/-- Texts with a comma between them read as their tokens with a comma between them. -/
theorem reads_intercalate {separator : List Char} (hseparator : ReadsAlways separator [.comma])
    (hends : Ends separator) (hne : separator ≠ []) {texts : List (List Char)}
    {tokens : List (List JsonToken)} (h : List.Forall₂ Reads texts tokens) :
    Reads (separator.intercalate texts) ([JsonToken.comma].intercalate tokens) := by
  induction h with
  | nil => exact fun _ _ _ => rfl
  | cons htext hrest ih =>
    cases hrest with
    | nil => simpa using htext
    | cons hnext hrest =>
      rw [List.intercalate_cons_cons, List.intercalate_cons_cons, List.append_assoc,
        List.append_assoc]
      refine htext.append (hseparator.append_reads ih) ?_
      -- the separator is not empty, so it ends a number that stands in front of it
      cases separator with
      | nil => exact absurd rfl hne
      | cons c separator => exact hends

/-- Items between brackets read as their tokens between those of the brackets. -/
theorem reads_bracketed {layout : Layout} {opening closing : String} {first last : JsonToken}
    (hopening : ReadsAlways opening.toList [first]) (hclosing : ReadsAlways closing.toList [last])
    (hends : Ends closing.toList) {texts : List String} {tokens : List (List JsonToken)}
    (h : List.Forall₂ Reads (texts.map String.toList) tokens) :
    Reads (layout.bracketed opening closing texts).toList
      (first :: ([JsonToken.comma].intercalate tokens ++ [last])) := by
  have hend := (readsAlways_newline layout).append hclosing
  have hseparator : ReadsAlways ("," ++ layout.inner.newline).toList [.comma] := by
    rw [String.toList_append]
    exact readsAlways_comma.append (readsAlways_newline layout.inner)
  have hcomma : Ends ("," ++ layout.inner.newline).toList := by
    rw [String.toList_append]
    rfl
  have hitems := reads_intercalate hseparator hcomma (by simp) h
  have hinner := hitems.append hend.reads ((ends_newline layout).append hends)
  cases texts with
  | nil =>
    cases h
    rw [Layout.bracketed, String.toList_append]
    exact (hopening.append hclosing).reads
  | cons text texts =>
    have hwhole := hopening.append_reads ((readsAlways_newline layout.inner).append_reads hinner)
    rw [Layout.bracketed, String.toList_append, String.toList_append, String.toList_append,
      String.toList_append, String.toList_intercalate]
    · simpa [List.append_assoc] using hwhole
    · exact fun hnil => List.cons_ne_nil _ _ hnil

theorem writeItems_eq_map (layout : Layout) (items : List Json) :
    writeItems layout items = items.map (write layout) := by
  induction items with
  | nil => rfl
  | cons item rest ih => rw [writeItems, ih, List.map_cons]

theorem writeMembers_eq_map (layout : Layout) (members : List (Option String × Json)) :
    writeMembers layout members = members.map fun member =>
      quoted (member.1.getD "") ++ layout.colon ++ write layout member.2 := by
  induction members with
  | nil => rfl
  | cons member rest ih => rw [writeMembers, ih, List.map_cons]

theorem itemTokens_eq_map (items : List Json) : itemTokens items = items.map tokens := by
  induction items with
  | nil => rfl
  | cons item rest ih => rw [itemTokens, ih, List.map_cons]

theorem memberTokens_eq_map (members : List (Option String × Json)) :
    memberTokens members = members.map fun member =>
      .text member.1 :: .colon :: tokens member.2 := by
  induction members with
  | nil => rfl
  | cons member rest ih => rw [memberTokens, ih, List.map_cons]

/-- A written value reads as its tokens. -/
theorem reads_write {value : Json} (h : value.IsPrintable) (layout : Layout) :
    Reads (write layout value).toList value.tokens := by
  induction h generalizing layout with
  | null =>
    rw [write, tokens]
    exact (readsAlways_word 'n' "ull".toList rfl rfl fun _ => rfl).reads
  | bool value =>
    rw [write, tokens]
    cases value with
    | false => exact (readsAlways_word 'f' "alse".toList rfl rfl fun _ => rfl).reads
    | true => exact (readsAlways_word 't' "rue".toList rfl rfl fun _ => rfl).reads
  | number hnumber =>
    rw [write, tokens]
    exact JsonToken.reads_numberText hnumber
  | text value =>
    rw [write, tokens]
    exact (JsonToken.readsAlways_quoted value).reads
  | array hitems ih =>
    rw [write, tokens, writeItems_eq_map, itemTokens_eq_map]
    have hopening : ReadsAlways "[".toList [.openArray] :=
      readsAlways_word '[' [] rfl rfl fun _ => rfl
    have hclosing : ReadsAlways "]".toList [.closeArray] :=
      readsAlways_word ']' [] rfl rfl fun _ => rfl
    refine reads_bracketed hopening hclosing rfl ?_
    rw [List.map_map, List.forall₂_map_left_iff, List.forall₂_map_right_iff, List.forall₂_same]
    exact fun item hitem => ih item hitem layout.inner
  | object hnames hvalues ih =>
    rw [write, tokens, writeMembers_eq_map, memberTokens_eq_map]
    have hopening : ReadsAlways "\x7b".toList [.openObject] :=
      readsAlways_word '\x7b' [] rfl rfl fun _ => rfl
    have hclosing : ReadsAlways "\x7d".toList [.closeObject] :=
      readsAlways_word '\x7d' [] rfl rfl fun _ => rfl
    refine reads_bracketed hopening hclosing rfl ?_
    rw [List.map_map, List.forall₂_map_left_iff, List.forall₂_map_right_iff, List.forall₂_same]
    intro member hmember
    obtain ⟨name, hname⟩ := Option.isSome_iff_exists.1 (hnames member hmember)
    -- the quoted name and the colon show where they end; only the value needs what follows
    simp only [Function.comp_apply, String.toList_append, hname, Option.getD_some]
    exact ((JsonToken.readsAlways_quoted name).append
      (readsAlways_colon layout.inner)).append_reads (ih member hmember layout.inner)

/-! ## Reading -/

open Reader (step place)

/-- A value may come next. -/
def Expected.AwaitsValue (expected : Expected) : Prop :=
  expected = .value ∨ expected = .valueOrEnd

/-- A name may come next. -/
def Expected.AwaitsName (expected : Expected) : Prop :=
  expected = .name ∨ expected = .nameOrEnd

/-- The tokens of a value are read as the value, wherever one is awaited. -/
def ReadsAs (value : Json) : Prop :=
  ∀ (opened : List Opened) (expected : Expected), expected.AwaitsValue →
    value.tokens.foldlM step ⟨opened, expected⟩ = place value opened

/-- Parts with a comma between them are read one after another. `awaits` says where a part can
start, and `within` what is open around the parts that have been read. -/
theorem foldlM_step_separated {α : Type} {partTokens : α → List JsonToken}
    {within : List α → Opened} {awaits : Expected → Prop} {next : Expected} (hnext : awaits next)
    (hcomma : ∀ found outer, step ⟨within found :: outer, .separator⟩ .comma =
      some ⟨within found :: outer, next⟩)
    {parts : List α}
    (h : ∀ part ∈ parts, ∀ found outer expected, awaits expected →
      (partTokens part).foldlM step ⟨within found :: outer, expected⟩ =
        some ⟨within (part :: found) :: outer, .separator⟩)
    (hne : parts ≠ []) (found : List α) (outer : List Opened) {expected : Expected}
    (hexpected : awaits expected) :
    ([JsonToken.comma].intercalate (parts.map partTokens)).foldlM step
        ⟨within found :: outer, expected⟩ =
      some ⟨within (parts.reverse ++ found) :: outer, .separator⟩ := by
  induction parts generalizing found expected with
  | nil => exact absurd rfl hne
  | cons part rest ih =>
    have hpart := h part List.mem_cons_self found outer expected hexpected
    cases rest with
    | nil =>
      rw [List.map_cons, List.map_nil, List.intercalate_singleton, hpart]
      rfl
    | cons other rest =>
      have hrest := ih (fun other hother => h other (List.mem_cons_of_mem _ hother))
        (List.cons_ne_nil _ _) (part :: found) hnext
      rw [List.map_cons] at hrest
      rw [List.map_cons, List.map_cons, List.intercalate_cons_cons, List.append_assoc,
        List.foldlM_append, hpart, Option.bind_eq_bind, Option.bind_some, List.singleton_append,
        List.foldlM_cons, hcomma, Option.bind_eq_bind, Option.bind_some, hrest]
      have hread : (other :: rest).reverse ++ part :: found =
          (part :: other :: rest).reverse ++ found := by simp
      rw [hread]

/-- The tokens of items are read as items of the array that is open. -/
theorem foldlM_step_items {items : List Json} (h : ∀ item ∈ items, ReadsAs item)
    (hne : items ≠ []) (outer : List Opened) :
    ([JsonToken.comma].intercalate (items.map tokens)).foldlM step
        ⟨.array [] :: outer, .valueOrEnd⟩ =
      some ⟨.array items.reverse :: outer, .separator⟩ := by
  have hread := foldlM_step_separated (.inl rfl) (fun _ _ => rfl)
    (fun item hitem found outer expected hexpected =>
      h item hitem (.array found :: outer) expected hexpected) hne [] outer (.inr rfl)
  rwa [List.append_nil] at hread

/-- The tokens of members are read as members of the object that is open. -/
theorem foldlM_step_members {members : List (Option String × Json)}
    (h : ∀ member ∈ members, ReadsAs member.2) (hne : members ≠ []) (outer : List Opened) :
    ([JsonToken.comma].intercalate (members.map fun member =>
      .text member.1 :: .colon :: tokens member.2)).foldlM step
        ⟨.object [] :: outer, .nameOrEnd⟩ =
      some ⟨.object members.reverse :: outer, .separator⟩ := by
  have hmember : ∀ member ∈ members, ∀ found outer expected, expected.AwaitsName →
      (JsonToken.text member.1 :: .colon :: tokens member.2).foldlM step
        ⟨.object found :: outer, expected⟩ =
          some ⟨.object (member :: found) :: outer, .separator⟩ := by
    intro member hmember found outer expected hexpected
    have hvalue := h member hmember (.member member.1 found :: outer) .value (.inl rfl)
    rcases hexpected with rfl | rfl <;> exact hvalue
  have hread := foldlM_step_separated (.inl rfl) (fun _ _ => rfl) hmember hne [] outer (.inr rfl)
  rwa [List.append_nil] at hread

/-- A token that is a value of its own is read as the value. -/
theorem readsAs_of_step {value : Json} {token : JsonToken} (htokens : value.tokens = [token])
    (h : ∀ (opened : List Opened) (expected : Expected), expected.AwaitsValue →
      step ⟨opened, expected⟩ token = place value opened) : ReadsAs value := by
  intro opened expected hexpected
  rw [htokens, List.foldlM_cons, h opened expected hexpected]
  simp only [List.foldlM_nil, bind_pure]

/-- What stands between two tokens is read between them. -/
theorem foldlM_step_enclosed {first last : JsonToken} {inner : List JsonToken}
    {reader start reached : Reader} (hopen : step reader first = some start)
    (hinner : inner.foldlM step start = some reached) :
    (first :: (inner ++ [last])).foldlM step reader = step reached last := by
  rw [List.foldlM_cons, hopen, Option.bind_eq_bind, Option.bind_some, List.foldlM_append, hinner,
    Option.bind_eq_bind, Option.bind_some, List.foldlM_cons]
  simp only [List.foldlM_nil, bind_pure]

/-- The tokens of a value are read as the value. -/
theorem foldlM_step_tokens {value : Json} (h : value.IsPrintable) : ReadsAs value := by
  induction h with
  | null =>
    refine readsAs_of_step (by rw [tokens]) fun opened expected hexpected => ?_
    rcases hexpected with rfl | rfl <;> rfl
  | bool value =>
    refine readsAs_of_step (by rw [tokens]) fun opened expected hexpected => ?_
    rcases hexpected with rfl | rfl <;> rfl
  | number hnumber =>
    refine readsAs_of_step (by rw [tokens]) fun opened expected hexpected => ?_
    rcases hexpected with rfl | rfl <;> rfl
  | text value =>
    refine readsAs_of_step (by rw [tokens]) fun opened expected hexpected => ?_
    rcases hexpected with rfl | rfl <;> rfl
  | @array items hitems ih =>
    intro opened expected hexpected
    -- without items the bracket stands where the first item could stand
    have hopen : step ⟨opened, expected⟩ .openArray =
        some ⟨.array [] :: opened, .valueOrEnd⟩ := by
      rcases hexpected with rfl | rfl <;> rfl
    rw [tokens, itemTokens_eq_map]
    by_cases hne : items = []
    · subst hne
      exact foldlM_step_enclosed hopen List.foldlM_nil
    · rw [foldlM_step_enclosed hopen (foldlM_step_items ih hne opened)]
      show place (.array items.reverse.reverse) opened = _
      rw [List.reverse_reverse]
  | @object members hnames hvalues ih =>
    intro opened expected hexpected
    have hopen : step ⟨opened, expected⟩ .openObject =
        some ⟨.object [] :: opened, .nameOrEnd⟩ := by
      rcases hexpected with rfl | rfl <;> rfl
    rw [tokens, memberTokens_eq_map]
    by_cases hne : members = []
    · subst hne
      exact foldlM_step_enclosed hopen List.foldlM_nil
    · rw [foldlM_step_enclosed hopen (foldlM_step_members ih hne opened)]
      show place (.object members.reverse.reverse) opened = _
      rw [List.reverse_reverse]

/-- A value that is written, in either layout, is read back. -/
theorem parse?_write {value : Json} (h : value.IsPrintable) (layout : Layout) :
    parse? (write layout value) = some value := by
  have htokens : JsonToken.tokens (write layout value) = some value.tokens := by
    have hreads := reads_write h layout [] [] JsonToken.ends_nil
    rw [List.append_nil, List.append_nil] at hreads
    rw [JsonToken.tokens, hreads, JsonToken.tokensFrom, List.reverse_reverse]
  have hread := foldlM_step_tokens h [] .value (.inl rfl)
  rw [parse?, htokens, Option.bind_eq_bind, Option.bind_some, Reader.start, hread]
  rfl

end CodeSurvey.Json
