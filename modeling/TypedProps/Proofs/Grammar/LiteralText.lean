import TypedProps.Proofs.Grammar.TypeText
import TypedProps.Proofs.Runtime.Literals
import TypedProps.Tag.Resolution

/-!
# `TypedProps.Proofs.Grammar.LiteralText`: texts that are literal types

A literal type is shown as it is written. This module says which texts are read as literal types
wherever a part of a union may end behind them (`LiteralText`): strings in quotes, digits, and the
words for truth values among others. Such a text is a plain text.
-/

set_option autoImplicit false

namespace TypedProps.Grammar

open TypedProps.Text
open TypedProps.Lexer
open TypedProps.Grammar.Parser

variable {c d : Cursor} {follow : List Char}

/-- A type is a literal type of some kind, written as a text. -/
def IsLiteral (text : String) (kind : LiteralKind) (type : Ty) : Prop :=
  ∃ loc form, type = .literal loc form ∧ loc.text = text ∧ form.kind? = some kind

/-- The text of a literal type of some kind: it is read as one wherever a part of a union may end
behind it. -/
structure LiteralText (text : String) (kind : LiteralKind) : Prop where
  solid (follow : List Char) : Solid (text.toList ++ follow)
  reads (markup : Bool) {size : Nat} {follow : List Char} (ends : EndsPart follow)
    (fits : (text.toList ++ follow).length ≤ size) :
    Reads (plainType (nested markup size)) text.toList follow (IsLiteral text kind)

/-- What is read as a literal type begins with neither an operator nor a joint. -/
theorem beginsPlain_of_literal {g : Phrases} {loc : Excerpt} {form : LiteralForm}
    (reads : plainType g c = .ok (.literal loc form, d)) : beginsPlain c.token.kind = true := by
  -- An operator and a joint are read as another form of type or as none, so they contradict the
  -- literal; every other token begins plainly.
  cases kind : c.token.kind with
  | word name escaped =>
    by_contra operator
    simp only [beginsPlain, Bool.or_eq_true, not_or, Bool.not_eq_true, Bool.not_eq_true',
      Bool.not_eq_false, List.contains_eq_mem, decide_eq_true_eq] at operator
    obtain ⟨rfl, operator⟩ := operator
    have others : ∀ w ∈ operatorWords, w ∉ ruledWords ∧ keyword? w = none := by decide
    rw [plainType_of_word kind (others name operator).1, (others name operator).2] at reads
    unfold typeReference at reads
    simp only [bind_eq_ok_iff, pure_eq_ok_iff] at reads
    obtain ⟨_, _, -, _, _, -, _, _, -, _, _, -, same, -⟩ := reads
    cases same
  | mark m =>
    unfold plainType at reads
    rw [here_bind] at reads
    cases m with
    | less | greater | bar | ampersand =>
      rw [kind] at reads
      cases reads
    | parenOpen =>
      simp only [kind, bind_eq_ok_iff, pure_eq_ok_iff] at reads
      obtain ⟨_, _, -, _, _, -, _, _, -, _, _, -, same, -⟩ := reads
      cases same
    | _ => rfl
  | endOfText | malformed =>
    unfold plainType at reads
    rw [here_bind, kind] at reads
    cases reads
  | _ => rfl

/-- The text of a literal type is a plain text. -/
theorem LiteralText.plain {text : String} {kind : LiteralKind} (literal : LiteralText text kind) :
    PlainText text.toList (IsLiteral text kind) := by
  refine ⟨literal.solid, fun {follow} ends => ?_, literal.reads⟩
  have stands := Cursor.stands_resume false 0 (literal.solid follow)
  obtain ⟨_, _, ⟨loc, form, rfl, -⟩, reads⟩ := literal.reads false ends le_rfl _ stands
  rw [← stands.kind]
  exact beginsPlain_of_literal reads

/-- The form of a literal type that is one token. -/
def literalForm? : Token.Kind → Option LiteralForm
  | .string _ => some .string
  | .number _ => some .number
  | .bigint => some .bigint
  | .word name false => if name = "true" ∨ name = "false" then some .boolean else none
  | _ => none

theorem plainType_of_literalForm? {g : Phrases} {form : LiteralForm}
    (isLiteral : literalForm? c.token.kind = some form) :
    plainType g c
      = (skip >>= fun _ => excerptFrom c >>= fun loc => pure (.literal loc form)) c := by
  unfold plainType
  rw [here_bind]
  unfold literalForm? at isLiteral
  split at isLiteral
  case h_4 name kind =>
    split at isLiteral
    · rename_i either
      cases isLiteral
      rw [kind]
      have either : (!false && (name == "true" || name == "false")) = true := by simpa using either
      simp only [either, if_true]
    · cases isLiteral
  case h_5 => cases isLiteral
  all_goals
    rename_i kind
    cases isLiteral
    rw [kind]

/-- One token is the text of a literal type. -/
theorem LiteralText.of_token {text : String} {kind : LiteralKind} {form : LiteralForm}
    (solid : ∀ follow, Solid (text.toList ++ follow)) (isKind : form.kind? = some kind)
    (token : ∀ follow, EndsPart follow → ∃ k, scan (text.toList ++ follow) = (k, follow) ∧
      literalForm? k = some form) : LiteralText text kind := by
  refine ⟨solid, fun markup size follow ends fits c stands => ?_⟩
  obtain ⟨k, scans, isLiteral⟩ := token follow ends
  have isLiteral : literalForm? c.token.kind = some form := by rwa [stands.kind, scans]
  refine ⟨.literal ⟨⟨c.token.start, c.token.start + text.toList.length⟩,
    String.ofList text.toList⟩ form, k.ownsTrailing,
    ⟨_, form, rfl, String.ofList_toList, isKind⟩, ?_⟩
  rw [plainType_of_literalForm? isLiteral, skip_bind,
    stands.next _ scans, bind_of_ok (excerptFrom_resume stands _)]
  rfl

/-- A string in quotes is the text of a literal type. -/
theorem LiteralText.quoted (s : String) : LiteralText (quote s) .string := by
  refine .of_token (fun follow => ?_) (rfl : LiteralForm.string.kind? = _)
    fun follow _ => ⟨.string s, scan_quote s follow, rfl⟩
  have text : (quote s).toList ++ follow
      = '\x22' :: (s.toList.flatMap quoteChar ++ '\x22' :: follow) := by
    simp [quote, quoteChars]
  rw [text]
  exact solid_cons _ rfl rfl (by decide)

/-- A string without escapes is read up to its closing quote. -/
theorem stringBody_unescaped {quote : Char} {body : List Char}
    (plain : ∀ c ∈ body, c ≠ quote ∧ c ≠ '\\' ∧ c ≠ '\n' ∧ c ≠ '\r') (follow : List Char) :
    stringBody quote (body ++ quote :: follow) = some (body.map Char.toNat, follow) := by
  induction body with
  | nil =>
    rw [List.nil_append, stringBody]
    simp
  | cons c rest ih =>
    obtain ⟨notQuote, notEscape, notFeed, notReturn⟩ := plain c List.mem_cons_self
    rw [List.cons_append, stringBody, ih fun d mem => plain d (List.mem_cons_of_mem _ mem)]
    simp [notQuote, notEscape, notFeed, notReturn]

/-- So is a string without escapes, whichever quotes it has. -/
theorem LiteralText.unescaped {quote : Char} {body : List Char}
    (isQuote : quote = '\x22' ∨ quote = '\x27')
    (plain : ∀ c ∈ body, c ≠ quote ∧ c ≠ '\\' ∧ c ≠ '\n' ∧ c ≠ '\r') :
    LiteralText (String.ofList (quote :: (body ++ [quote]))) .string := by
  have text (follow : List Char) : (String.ofList (quote :: (body ++ [quote]))).toList ++ follow
      = quote :: (body ++ quote :: follow) := by
    simp
  have notWord : (isIdentifierStart quote || quote == '\\') = false ∧ quote.isDigit = false ∧
      quote ≠ '.' := by
    rcases isQuote with rfl | rfl <;> decide
  refine .of_token (fun follow => ?_) (rfl : LiteralForm.string.kind? = _)
    fun follow _ => ⟨.string (String.ofList (joinSurrogates (body.map Char.toNat))), ?_, rfl⟩
  · rw [text]
    rcases isQuote with rfl | rfl <;> exact solid_cons _ rfl rfl (by decide)
  · rw [text, scan, notWord.1, if_neg Bool.false_ne_true]
    simp [notWord.2, isQuote, stringBody_unescaped plain follow]

/-- So are the two words for truth values. -/
theorem LiteralText.boolean {word : String} (isBoolean : word = "true" ∨ word = "false") :
    LiteralText word .boolean := by
  have letters : isLetters word.toList = true := by
    rcases isBoolean with rfl | rfl <;> decide
  refine .of_token (fun follow => solid_letters follow letters)
    (rfl : LiteralForm.boolean.kind? = _) fun follow ends =>
    ⟨_, scan_letters letters ends.endsWord, ?_⟩
  rw [String.ofList_toList, literalForm?, if_pos isBoolean]

theorem not_isIdentifierStart_of_isDigit {c : Char} (digit : c.isDigit = true) :
    isIdentifierStart c = false := by
  obtain ⟨low, high⟩ := code_of_isDigit digit
  have notLetter : c.isAlpha = false := by
    by_contra letter
    have := code_of_isAlpha (Bool.not_eq_false _ ▸ letter)
    omega
  have notDollar : c ≠ '$' := by rintro rfl; exact absurd low (by decide)
  have notLow : c ≠ '_' := by rintro rfl; exact absurd high (by decide)
  simp [isIdentifierStart, notLetter, notDollar, notLow]
  omega

/-- Digits are a decimal number up to where a part may end. -/
theorem decimal_digits {digits : List Char} (areDigits : ∀ d ∈ digits, d.isDigit = true)
    (ends : EndsPart follow) {finish : List Char → Bool → Option (Bool × List Char)}
    (finishes : finish follow false = some (false, follow)) :
    number?.decimal finish (digits ++ follow) = some (false, follow) := by
  have dropped : dropDigits Char.isDigit (digits ++ follow) = follow := by
    unfold dropDigits
    rw [List.dropWhile_append_of_pos (fun d mem => by simp [areDigits d mem])]
    rcases ends with (rfl | ⟨rest, rfl⟩) | ⟨rest, rfl⟩ <;> rfl
  rw [number?.decimal, dropped]
  rcases ends with (rfl | ⟨rest, rfl⟩) | ⟨rest, rfl⟩ <;> exact finishes

/-- No mark of another base is behind a first digit. -/
theorem ne_of_isAlpha_of_digits {digits more : List Char} {x r : Char}
    (areDigits : ∀ d ∈ digits, d.isDigit = true) (nonempty : digits ≠ []) (ends : EndsPart follow)
    (split : digits ++ follow = '0' :: x :: more) (letter : r.isAlpha = true) : x ≠ r := by
  rintro rfl
  obtain ⟨low, -⟩ := code_of_isAlpha letter
  match digits, nonempty with
  | [d], _ =>
    rcases ends with (rfl | ⟨rest, rfl⟩) | ⟨rest, rfl⟩
    · simp at split
    · simp only [List.cons_append, List.nil_append, List.cons.injEq] at split
      rw [← split.2.1] at low
      exact absurd low (by decide)
    · simp only [List.cons_append, List.nil_append, List.cons.injEq] at split
      rw [← split.2.1] at low
      exact absurd low (by decide)
  | d :: e :: rest, _ =>
    simp only [List.cons_append, List.cons.injEq] at split
    obtain ⟨-, rfl, -⟩ := split
    have := code_of_isDigit (areDigits e (by simp))
    omega

theorem number?_digits {digits : List Char} (areDigits : ∀ d ∈ digits, d.isDigit = true)
    (nonempty : digits ≠ []) (ends : EndsPart follow) :
    number? (digits ++ follow) = some (false, follow) := by
  have finishes : (if (follow.head?.map isIdentifierStart).getD false = true then none
      else some (false, follow)) = some (false, follow) := by
    rcases ends with (rfl | ⟨rest, rfl⟩) | ⟨rest, rfl⟩
    · rfl
    · rw [if_neg (by simp; decide)]
    · rw [if_neg (by simp; decide)]
  -- A number with a base begins with a digit and a letter; among digits the letter is missing.
  unfold number?
  simp only
  split
  case h_1 x more split =>
    have noBase {r s : Char} (letters : r.isAlpha = true ∧ s.isAlpha = true) :
        (x == r || x == s) = false := by
      simp [ne_of_isAlpha_of_digits areDigits nonempty ends split letters.1,
        ne_of_isAlpha_of_digits areDigits nonempty ends split letters.2]
    rw [noBase ⟨rfl, rfl⟩, if_neg Bool.false_ne_true, noBase ⟨rfl, rfl⟩,
      if_neg Bool.false_ne_true, noBase ⟨rfl, rfl⟩, if_neg Bool.false_ne_true]
    exact decimal_digits areDigits ends finishes
  case h_2 => exact decimal_digits areDigits ends finishes

/-- Digits are the text of a literal type. -/
theorem LiteralText.digits {text : String} (nonempty : text.toList ≠ [])
    (areDigits : ∀ d ∈ text.toList, d.isDigit = true) : LiteralText text .number := by
  obtain ⟨d, rest, split⟩ := List.exists_cons_of_ne_nil nonempty
  have digit : d.isDigit = true := areDigits d (by simp [split])
  obtain ⟨low, high⟩ := code_of_isDigit digit
  have notEscape : d ≠ '\\' := by
    rintro rfl
    exact absurd high (by decide)
  have notWord : (isIdentifierStart d || d == '\\') = false := by
    rw [not_isIdentifierStart_of_isDigit digit, Bool.false_or, beq_eq_false_iff_ne]
    exact notEscape
  refine .of_token (fun follow => ?_) (rfl : LiteralForm.number.kind? = _) fun follow ends =>
    ⟨.number text, ?_, rfl⟩
  · rw [split]
    exact solid_of_code _ low (by omega)
  · have number := number?_digits areDigits nonempty ends
    have taken : (text.toList ++ follow).take ((text.toList ++ follow).length - follow.length)
        = text.toList := by
      rw [List.length_append, Nat.add_sub_cancel, List.take_left]
    rw [split, List.cons_append] at number taken ⊢
    rw [scan, notWord, if_neg Bool.false_ne_true, digit, Bool.true_or, if_pos rfl, number]
    simp only
    rw [taken, ← split, String.ofList_toList]

end TypedProps.Grammar
