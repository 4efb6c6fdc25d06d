import CodeSurvey.Json.Printer
import CodeSurvey.Json.Token
import CodeSurvey.Proofs.ListLemmas

/-!
# What a written JSON value reads as

A written value splits into the tokens of which it is made, in either layout. A number in a text
goes on for as long as it can, so it reads back only where nothing behind it goes on with it; all
other tokens show where they end.

## Key results

- `JsonToken.readNumber_numberText`: a number that is written is read back
- `JsonToken.readText_quoted`: so is a text
- `JsonToken.readsAlways_quoted`, `JsonToken.reads_numberText`: each of them reads as one token
-/

namespace CodeSurvey

/-- A number that is told apart by how it is written: all its digits fit, and it has an exponent,
which is not too large, exactly if it is not plain. -/
structure JsonNumber.IsCanonical (number : JsonNumber) : Prop where
  digits_le : number.digits ≤ JsonToken.digitsLimit
  scale_eq_zero : number.plain = true → number.scale = 0
  scale_lt : number.scale.natAbs < JsonToken.exponentLimit

theorem JsonNumber.isCanonical_ofNat {n : Nat} (h : n ≤ JsonToken.digitsLimit) :
    (JsonNumber.ofNat n).IsCanonical :=
  ⟨h, fun _ => rfl, show (0 : Int).natAbs < JsonToken.exponentLimit by decide⟩

namespace JsonToken

open Text (hexDigit hexValue?_hexDigit)

/-! ## Numbers -/

/-- Whether a number can go on with a character. -/
def continuesNumber (c : Char) : Bool :=
  c.isDigit || c == '.' || c == 'e' || c == 'E'

/-- A text with which no number in front of it goes on. -/
def Ends (rest : List Char) : Prop :=
  rest.head?.any continuesNumber = false

theorem ends_nil : Ends [] := rfl

theorem Ends.append {front back : List Char} (hfront : Ends front) (hback : Ends back) :
    Ends (front ++ back) := by
  cases front with
  | nil => exact hback
  | cons c front => exact hfront

theorem Ends.head?_isDigit {rest : List Char} (h : Ends rest) :
    rest.head?.any Char.isDigit = false :=
  List.head?_any_eq_false_of_imp (fun c hc => by simp [continuesNumber, hc]) h

theorem isDigit_toDigits (n : Nat) : ∀ c ∈ Nat.toDigits 10 n, c.isDigit = true :=
  fun _ hc => Nat.isDigit_of_mem_toDigits (by decide) (by decide) hc

/-- A number has a first digit. -/
theorem exists_toDigits_eq_cons (n : Nat) :
    ∃ c digits, Nat.toDigits 10 n = c :: digits ∧ c.isDigit = true := by
  obtain ⟨c, digits, hdigits⟩ := List.exists_cons_of_ne_nil (@Nat.toDigits_ne_nil n 10)
  exact ⟨c, digits, hdigits, isDigit_toDigits n c (by rw [hdigits]; exact List.mem_cons_self)⟩

/-- The digits of a number start with a zero only if it is zero. -/
theorem eq_zero_of_head?_toDigits {n : Nat} (h : (Nat.toDigits 10 n).head? = some '0') :
    n = 0 := by
  induction n using Nat.strongRecOn with
  | _ n ih =>
    rw [Nat.toDigits_eq_if (by decide)] at h
    split at h
    · exact Nat.digitChar_eq_zero.1 (Option.some.inj h)
    · rw [List.head?_append_of_ne_nil _ Nat.toDigits_ne_nil] at h
      have hfront := ih (n / 10) (by omega) h
      omega

theorem le_ofDigitChars (digits : List Char) (value : Nat) :
    value ≤ Nat.ofDigitChars 10 digits value := by
  induction digits generalizing value with
  | nil => rw [Nat.ofDigitChars_nil]
  | cons c rest ih =>
    rw [Nat.ofDigitChars_cons]
    have hrest := ih (10 * value + (c.toNat - '0'.toNat))
    omega

/-- Digits that stand for a number within the limit are all taken. -/
theorem takeDigits_eq {digits : List Char} {value : Nat} (taken : Nat)
    (h : Nat.ofDigitChars 10 digits value ≤ digitsLimit) :
    takeDigits value taken digits =
      (Nat.ofDigitChars 10 digits value, taken + digits.length) := by
  induction digits generalizing value taken with
  | nil => rw [takeDigits, Nat.ofDigitChars_nil, List.length_nil, Nat.add_zero]
  | cons c rest ih =>
    rw [Nat.ofDigitChars_cons] at h ⊢
    have hnext := le_ofDigitChars rest (10 * value + (c.toNat - '0'.toNat))
    have hfits : 10 * value + digitValue c ≤ digitsLimit := Nat.le_trans hnext h
    simp only [takeDigits, if_pos hfits]
    rw [show 10 * value + digitValue c = 10 * value + (c.toNat - '0'.toNat) from rfl, ih _ h,
      List.length_cons]
    congr 1
    omega

/-- The digits of an exponent below the limit stand for the exponent. -/
theorem exponentValue_toDigits {n : Nat} (h : n < exponentLimit) :
    exponentValue (Nat.toDigits 10 n) = n := by
  have hfold : ∀ (digits : List Char) (value : Nat),
      Nat.ofDigitChars 10 digits value < exponentLimit →
        digits.foldl (fun value c =>
          if value < exponentLimit then 10 * value + digitValue c else value) value =
            Nat.ofDigitChars 10 digits value := by
    intro digits
    induction digits with
    | nil => intro value _; rw [List.foldl_nil, Nat.ofDigitChars_nil]
    | cons c rest ih =>
      intro value hlt
      have hvalue := le_ofDigitChars (c :: rest) value
      rw [List.foldl_cons, if_pos (by omega)]
      rw [Nat.ofDigitChars_cons] at hlt ⊢
      exact ih _ hlt
  rw [exponentValue, hfold _ 0 (by rwa [Nat.ofDigitChars_ten_toDigits]),
    Nat.ofDigitChars_ten_toDigits]

/-- The digits of a number are such as a number can start with. -/
theorem startsWell_toDigits (n : Nat) :
    ((Nat.toDigits 10 n).isEmpty ||
      ((Nat.toDigits 10 n).head? == some '0' && (Nat.toDigits 10 n).length != 1)) = false := by
  by_cases hzero : n = 0
  · rw [hzero]
    rfl
  · have hhead : (Nat.toDigits 10 n).head? ≠ some '0' :=
      fun hhead => hzero (eq_zero_of_head?_toDigits hhead)
    simp [hhead]

theorem numberOf_toDigits {n : Nat} (h : n ≤ digitsLimit) (negative : Bool)
    (exponent : Option Int) :
    numberOf negative (Nat.toDigits 10 n) [] exponent =
      ⟨negative, n, exponent.getD 0, exponent.isNone⟩ := by
  have htake : takeDigits 0 0 (Nat.toDigits 10 n) = (n, (Nat.toDigits 10 n).length) := by
    rw [takeDigits_eq 0 (by rwa [Nat.ofDigitChars_ten_toDigits]), Nat.ofDigitChars_ten_toDigits,
      Nat.zero_add]
  simp [numberOf, htake, takeDigits]

theorem readExponentDigits_toDigits {n : Nat} (h : n < exponentLimit) (negative : Bool)
    {rest : List Char} (hends : Ends rest) :
    readExponentDigits negative (Nat.toDigits 10 n ++ rest) =
      some (if negative then -(n : Int) else n, rest) := by
  have hhead := hends.head?_isDigit
  simp only [readExponentDigits, List.takeWhile_append_of_head? (isDigit_toDigits n) hhead,
    List.dropWhile_append_of_head? (isDigit_toDigits n) hhead, exponentValue_toDigits h]
  rw [if_neg (by simp)]

/-- An exponent that is written is read back. -/
theorem readExponent_repr {scale : Int} (h : scale.natAbs < exponentLimit) {rest : List Char}
    (hends : Ends rest) :
    readExponent ('e' :: (scale.repr.toList ++ rest)) = some (some scale, rest) := by
  rw [Int.repr_eq_if]
  by_cases hsign : 0 ≤ scale
  · have hread := readExponentDigits_toDigits (show scale.toNat < exponentLimit by omega) false
      hends
    rw [if_pos hsign, Nat.toList_repr]
    simp only [readExponent]
    rw [if_pos (by decide)]
    -- the first character is a digit and no sign
    obtain ⟨c, digits, hdigits, hc⟩ := exists_toDigits_eq_cons scale.toNat
    rw [hdigits] at hread ⊢
    rw [List.cons_append] at hread ⊢
    split
    · exact absurd hc (by simp_all)
    · exact absurd hc (by simp_all)
    · rw [hread, Option.map_some]
      simp only [Bool.false_eq_true, if_false, Int.toNat_of_nonneg hsign]
  · have hread := readExponentDigits_toDigits (show (-scale).toNat < exponentLimit by omega) true
      hends
    rw [if_neg hsign, String.toList_append, Nat.toList_repr]
    simp only [readExponent]
    rw [if_pos (by decide)]
    show Option.map _ (readExponentDigits true (Nat.toDigits 10 (-scale).toNat ++ rest)) = _
    rw [hread, Option.map_some]
    simp only [if_true]
    congr
    omega

/-- Behind a number nothing is read as its exponent. -/
theorem readExponent_of_ends {rest : List Char} (hends : Ends rest) :
    readExponent rest = some (none, rest) := by
  cases rest with
  | nil => rfl
  | cons c rest =>
    simp only [Ends, List.head?_cons, Option.any_some, continuesNumber, Bool.or_eq_false_iff,
      beq_eq_false_iff_ne] at hends
    simp only [readExponent]
    rw [if_neg (by simp [hends.1.2, hends.2])]

/-- Without a point nothing is read as a fraction. -/
theorem readFraction_of_head? {rest : List Char} (h : rest.head?.any (· == '.') = false) :
    readFraction rest = some ([], rest) := by
  unfold readFraction
  split
  · cases h
  · rfl

/-- What is written of a number behind its digits. -/
def exponentText (number : JsonNumber) : List Char :=
  if number.plain then [] else 'e' :: number.scale.repr.toList

theorem head?_exponentText (number : JsonNumber) (rest : List Char) (hends : Ends rest) :
    (exponentText number ++ rest).head?.any (fun c => c.isDigit || c == '.') = false := by
  unfold exponentText
  split
  · exact List.head?_any_eq_false_of_imp (fun c hc => by rw [continuesNumber, hc]; rfl) hends
  · rfl

section Number

variable {number : JsonNumber} (h : number.IsCanonical)

include h

theorem toList_numberText :
    (Json.numberText number).toList = (if number.negative then ['-'] else []) ++
      (Nat.toDigits 10 number.digits ++ exponentText number) := by
  rw [Json.numberText, String.toList_append, String.toList_append, Nat.toString_eq_repr,
    Nat.toList_repr, Int.toString_eq_repr, List.append_assoc]
  congr 1
  · split <;> rfl
  · congr 1
    unfold exponentText
    by_cases hplain : number.plain = true
    · simp [hplain, h.scale_eq_zero hplain]
    · simp [hplain]

theorem readExponent_exponentText {rest : List Char} (hends : Ends rest) :
    readExponent (exponentText number ++ rest) =
      some (if number.plain then none else some number.scale, rest) := by
  unfold exponentText
  split
  · rw [List.nil_append, readExponent_of_ends hends]
  · rw [List.cons_append, readExponent_repr h.scale_lt hends]

/-- A number is made of its sign, its digits and its exponent. -/
theorem numberOf_exponent :
    numberOf number.negative (Nat.toDigits 10 number.digits) []
      (if number.plain then none else some number.scale) = number := by
  rw [numberOf_toDigits h.digits_le]
  obtain ⟨negative, digits, scale, plain⟩ := number
  cases plain with
  | true =>
    obtain rfl : scale = 0 := h.scale_eq_zero rfl
    rfl
  | false => rfl

/-- The digits and the exponent of a number are read back. -/
theorem readUnsigned_digits {rest : List Char} (hends : Ends rest) :
    readUnsigned number.negative
        (Nat.toDigits 10 number.digits ++ (exponentText number ++ rest)) =
      some (number, rest) := by
  have hhead := head?_exponentText number rest hends
  have hdigit : (exponentText number ++ rest).head?.any Char.isDigit = false :=
    List.head?_any_eq_false_of_imp (fun c hc => by rw [hc]; rfl) hhead
  have hpoint : (exponentText number ++ rest).head?.any (· == '.') = false :=
    List.head?_any_eq_false_of_imp (fun c hc => by rw [hc, Bool.or_true]) hhead
  unfold readUnsigned
  simp only [List.takeWhile_append_of_head? (isDigit_toDigits _) hdigit,
    List.dropWhile_append_of_head? (isDigit_toDigits _) hdigit]
  rw [startsWell_toDigits]
  simp [readFraction_of_head? hpoint, readExponent_exponentText h hends, numberOf_exponent h]

theorem exists_numberText_eq_cons :
    ∃ c rest, (Json.numberText number).toList = c :: rest ∧ (c = '-' ∨ c.isDigit = true) := by
  rw [toList_numberText h]
  split
  · exact ⟨'-', _, rfl, .inl rfl⟩
  · obtain ⟨c, digits, hdigits, hc⟩ := exists_toDigits_eq_cons number.digits
    exact ⟨c, digits ++ exponentText number, by rw [hdigits]; rfl, .inr hc⟩

/-- A number that is written is read back. -/
theorem readNumber_numberText {rest : List Char} (hends : Ends rest) :
    readNumber ((Json.numberText number).toList ++ rest) = some (number, rest) := by
  have hread := readUnsigned_digits h hends
  rw [toList_numberText h, List.append_assoc, List.append_assoc]
  cases hnegative : number.negative with
  | true =>
    rw [hnegative] at hread
    exact hread
  | false =>
    rw [hnegative] at hread
    -- the first character is a digit and no sign
    obtain ⟨c, digits, hdigits, hc⟩ := exists_toDigits_eq_cons number.digits
    simp only [Bool.false_eq_true, if_false, List.nil_append]
    rw [hdigits, List.cons_append] at hread ⊢
    unfold readNumber
    split
    · exact absurd hc (by simp_all)
    · exact hread

end Number

/-! ## Texts -/

/-- How far a text has been read whose characters are all read, the last first. -/
def Quoted.reached (done : List Char) : Quoted := ⟨done, none, true⟩

/-- The digits of a code unit below the space are read. -/
theorem hexValue4?_hexDigit {n : Nat} (h : n < 0x20) :
    hexValue4? '0' '0' (hexDigit (n / 16)) (hexDigit (n % 16)) = some n := by
  have hzero : Text.hexValue? '0' = some 0 := by decide
  have hhigh := hexValue?_hexDigit (n / 16) (by omega)
  have hlow := hexValue?_hexDigit (n % 16) (by omega)
  simp only [hexValue4?, hzero, hhigh, hlow, Option.bind_eq_bind, Option.bind_some,
    Option.pure_def, Option.some.injEq]
  omega

/-- A character that is no surrogate is read by its code unit. -/
theorem pushUnit_toNat (done : List Char) {c : Char} (h : c.toNat < 0xD800) :
    (Quoted.reached done).pushUnit c.toNat = .reached (c :: done) := by
  rw [Quoted.pushUnit, if_neg (by simp; omega), if_neg (by simp; omega), Char.ofNat_toNat]
  rfl

/-- A character that is not escaped stands for itself. -/
theorem readText_cons {c : Char} (hquote : c ≠ '"') (hbackslash : c ≠ '\\')
    (hspace : ¬ c.toNat < 0x20) (done rest : List Char) :
    readText (.reached done) (c :: rest) = readText (.reached (c :: done)) rest := by
  conv_lhs => unfold readText
  split
  case h_5 heq =>
    obtain ⟨rfl, rfl⟩ := List.cons.inj heq
    rw [if_neg hspace]
    rfl
  all_goals simp_all

/-- A character that is written is read back. -/
theorem readText_escape (done : List Char) (c : Char) (rest : List Char) :
    readText (.reached done) ((Json.escape c).toList ++ rest) =
      readText (.reached (c :: done)) rest := by
  unfold Json.escape
  split
  case h_8 hquote hbackslash _ _ _ _ _ =>
    split
    · rename_i hspace
      simp only [String.toList_append, String.toList_ofList]
      show readText _ ('\\' :: 'u' :: '0' :: '0' :: hexDigit (c.toNat / 16) ::
        hexDigit (c.toNat % 16) :: rest) = _
      rw [readText, hexValue4?_hexDigit hspace]
      simp only [pushUnit_toNat done (show c.toNat < 0xD800 by omega)]
    · rename_i hspace
      have htext : c.toString.toList = [c] := by simp [Char.toString]
      rw [htext, List.singleton_append, readText_cons hquote hbackslash hspace]
  -- all others have a letter for their escape
  all_goals rfl

/-- What is written of a text behind its first quote. -/
theorem toList_quoted (text : String) :
    (Json.quoted text).toList =
      '"' :: (text.toList.flatMap (fun c => (Json.escape c).toList) ++ ['"']) := by
  have hfold : ∀ (characters : List Char) (written : String),
      (characters.foldl (fun written c => written ++ Json.escape c) written).toList =
        written.toList ++ characters.flatMap fun c => (Json.escape c).toList := by
    intro characters
    induction characters with
    | nil => intro written; simp
    | cons c rest ih =>
      intro written
      rw [List.foldl_cons, ih, String.toList_append, List.flatMap_cons, List.append_assoc]
  rw [Json.quoted, String.toList_append, String.toList_append, hfold]
  rfl

/-- A text that is written is read back. -/
theorem readText_quoted (text : String) (rest : List Char) :
    readText .start (text.toList.flatMap (fun c => (Json.escape c).toList) ++ '"' :: rest) =
      some (some text, rest) := by
  have hread : ∀ (characters done : List Char),
      readText (.reached done)
          (characters.flatMap (fun c => (Json.escape c).toList) ++ '"' :: rest) =
        some (some (String.ofList (done.reverse ++ characters)), rest) := by
    intro characters
    induction characters with
    | nil => intro done; simp [readText, Quoted.finish, Quoted.reached]
    | cons c characters ih =>
      intro done
      rw [List.flatMap_cons, List.append_assoc, readText_escape, ih]
      simp
  show readText (.reached []) _ = _
  rw [hread, List.reverse_nil, List.nil_append, String.ofList_toList]

/-! ## Tokens -/

theorem tokensFrom_of_isSpace {c : Char} (h : isSpace c = true) (done : List JsonToken)
    (rest : List Char) : tokensFrom done (c :: rest) = tokensFrom done rest := by
  rw [tokensFrom, if_pos h]

theorem tokensFrom_of_read {c : Char} {rest after : List Char} {token : JsonToken}
    (hspace : isSpace c = false) (hread : read (c :: rest) = some (token, after))
    (done : List JsonToken) :
    tokensFrom done (c :: rest) = tokensFrom (token :: done) after := by
  rw [tokensFrom, if_neg (by simp [hspace])]
  split
  · rename_i hnone
    rw [hread] at hnone
    cases hnone
  · rename_i hsome
    rw [hread] at hsome
    obtain ⟨rfl, rfl⟩ := Prod.mk.inj (Option.some.inj hsome)
    rfl

/-- Wherever a text stands, some tokens are read from it. -/
def ReadsAlways (text : List Char) (tokens : List JsonToken) : Prop :=
  ∀ done rest, tokensFrom done (text ++ rest) = tokensFrom (tokens.reverse ++ done) rest

/-- Wherever a text stands and no number at its end goes on, some tokens are read from it. -/
def Reads (text : List Char) (tokens : List JsonToken) : Prop :=
  ∀ done rest, Ends rest →
    tokensFrom done (text ++ rest) = tokensFrom (tokens.reverse ++ done) rest

theorem ReadsAlways.reads {text : List Char} {tokens : List JsonToken}
    (h : ReadsAlways text tokens) : Reads text tokens :=
  fun done rest _ => h done rest

section Append

variable {front back : List Char} {here there : List JsonToken}

theorem ReadsAlways.append_reads (hfront : ReadsAlways front here) (hback : Reads back there) :
    Reads (front ++ back) (here ++ there) := by
  intro done rest hends
  rw [List.append_assoc, hfront, hback _ _ hends, List.reverse_append, List.append_assoc]

theorem Reads.append (hfront : Reads front here) (hback : Reads back there)
    (hends : Ends back) : Reads (front ++ back) (here ++ there) := by
  intro done rest hrest
  rw [List.append_assoc, hfront _ _ (hends.append hrest), hback _ _ hrest, List.reverse_append,
    List.append_assoc]

theorem ReadsAlways.append (hfront : ReadsAlways front here) (hback : ReadsAlways back there) :
    ReadsAlways (front ++ back) (here ++ there) := by
  intro done rest
  rw [List.append_assoc, hfront, hback, List.reverse_append, List.append_assoc]

end Append

theorem readsAlways_of_isSpace {blank : List Char} (h : ∀ c ∈ blank, isSpace c = true) :
    ReadsAlways blank [] := by
  intro done rest
  induction blank with
  | nil => rfl
  | cons c blank ih =>
    rw [List.forall_mem_cons] at h
    rw [List.cons_append, tokensFrom_of_isSpace h.1, ih h.2]

theorem readsAlways_of_read {c : Char} {text : List Char} {token : JsonToken}
    (hspace : isSpace c = false)
    (hread : ∀ rest, read (c :: (text ++ rest)) = some (token, rest)) :
    ReadsAlways (c :: text) [token] :=
  fun done rest => tokensFrom_of_read hspace (hread rest) done

theorem readsAlways_quoted (text : String) :
    ReadsAlways (Json.quoted text).toList [.text (some text)] := by
  rw [toList_quoted]
  refine readsAlways_of_read rfl fun rest => ?_
  rw [List.append_assoc, List.singleton_append]
  simp only [read]
  rw [readText_quoted]
  rfl

theorem read_of_number {c : Char} (hc : c = '-' ∨ c.isDigit = true) (rest : List Char) :
    read (c :: rest) =
      (readNumber (c :: rest)).map fun found => (number found.1, found.2) := by
  have hne : ∀ other : Char, other ≠ '-' → other.isDigit = false → c ≠ other := by
    rintro other hminus hdigit rfl
    rcases hc with hc | hc
    · exact hminus hc
    · rw [hdigit] at hc
      cases hc
  unfold read
  split
  case h_11 => rfl
  all_goals
    rename_i heq
    exact absurd (List.cons.inj heq).1 (hne _ (by decide) (by decide))

theorem reads_numberText {number : JsonNumber} (h : number.IsCanonical) :
    Reads (Json.numberText number).toList [.number number] := by
  intro done rest hends
  have hread := readNumber_numberText h hends
  obtain ⟨c, text, htext, hc⟩ := exists_numberText_eq_cons h
  rw [htext, List.cons_append] at hread ⊢
  have hspace : isSpace c = false := by
    rcases hc with rfl | hc
    · rfl
    · by_contra hspace
      simp only [Bool.not_eq_false, isSpace, Bool.or_eq_true, beq_iff_eq] at hspace
      rcases hspace with ((rfl | rfl) | rfl) | rfl <;> cases hc
  refine tokensFrom_of_read hspace ?_ done
  rw [read_of_number hc, hread]
  rfl

end JsonToken

end CodeSurvey
