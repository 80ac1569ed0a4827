import TypedProps.Text.Quoted
import TypedProps.Token.Lexer

/-!
# `TypedProps.Proofs.Runtime.Literals`: strings in quotes

A script that has a string in quotes means this string: `scan_quote` says that the token is the
string, whatever its characters are.
-/

set_option autoImplicit false

namespace TypedProps.Lexer

open TypedProps.Text

/-- The digits of the escape of a control character. -/
theorem hexNumber?_digits : ∀ n < 0x20,
    hexNumber? ['0', '0', hexDigit (n / 16), hexDigit (n % 16)] = some n := by
  decide

/-- A character in quotes is read as itself. -/
theorem stringBody_quoteChar (c : Char) (rest : List Char) :
    stringBody '\x22' (quoteChar c ++ rest)
      = (stringBody '\x22' rest).map fun (more, left) => (c.toNat :: more, left) := by
  -- An escape is a backslash, a letter, and up to four digits.
  have escaped (tail : List Char) (points : List Nat) (read : Nat)
      (isEscape : stringEscape? (tail ++ rest) = some (points, read))
      (all : (tail ++ rest).drop read = rest) :
      stringBody '\x22' ('\\' :: (tail ++ rest))
        = (stringBody '\x22' rest).map fun (more, left) => (points ++ more, left) := by
    rw [stringBody]
    simp [isEscape, all]
  unfold quoteChar
  split
  case isTrue isQuote =>
    rw [beq_iff_eq.mp isQuote]
    exact escaped ['\x22'] [0x22] 1 rfl rfl
  split
  case isTrue isBackslash =>
    rw [beq_iff_eq.mp isBackslash]
    exact escaped ['\\'] [0x5C] 1 rfl rfl
  split
  case isTrue isFeed =>
    rw [beq_iff_eq.mp isFeed]
    exact escaped ['n'] [0xA] 1 rfl rfl
  split
  case isTrue isReturn =>
    rw [beq_iff_eq.mp isReturn]
    exact escaped ['r'] [0xD] 1 rfl rfl
  split
  case isTrue isTab =>
    rw [beq_iff_eq.mp isTab]
    exact escaped ['t'] [0x9] 1 rfl rfl
  split
  case isTrue isBackspace =>
    rw [beq_iff_eq.mp isBackspace]
    exact escaped ['b'] [0x8] 1 rfl rfl
  split
  case isTrue isFormFeed =>
    rw [beq_iff_eq.mp isFormFeed]
    exact escaped ['f'] [0xC] 1 rfl rfl
  split
  case isTrue isControl =>
    have number := hexNumber?_digits c.toNat isControl
    refine escaped ['u', '0', '0', hexDigit (c.toNat / 16), hexDigit (c.toNat % 16)] [c.toNat] 5 ?_
      rfl
    have read : codePointEscape? ('u' :: '0' :: '0' :: hexDigit (c.toNat / 16)
        :: hexDigit (c.toNat % 16) :: rest) = some (c.toNat, 5) := by
      show (hexNumber? ['0', '0', hexDigit (c.toNat / 16), hexDigit (c.toNat % 16)]).map (·, 5) = _
      rw [number]
      rfl
    show (codePointEscape? ('u' :: '0' :: '0' :: _ :: _ :: rest)).map _ = _
    rw [read]
    rfl
  case isFalse notQuote notBackslash notFeed notReturn _ _ _ _ =>
    have ne : c ≠ '\x22' := by
      rintro rfl
      exact notQuote rfl
    rw [List.singleton_append, stringBody]
    simp [ne, notBackslash, notFeed, notReturn]

/-- Characters in quotes are read as themselves, up to the closing quote. -/
theorem stringBody_quoted (cs rest : List Char) :
    stringBody '\x22' (cs.flatMap quoteChar ++ '\x22' :: rest)
      = some (cs.map Char.toNat, rest) := by
  induction cs with
  | nil =>
    rw [List.flatMap_nil, List.nil_append, stringBody]
    rfl
  | cons c cs ih =>
    rw [List.flatMap_cons, List.append_assoc, stringBody_quoteChar, ih]
    rfl

/-- No character is half of a surrogate pair. -/
theorem not_surrogate (c : Char) : isLeadSurrogate c.toNat = false ∧
    isTrailSurrogate c.toNat = false := by
  have valid : c.toNat < 0xD800 ∨ 0xDFFF < c.toNat ∧ c.toNat < 0x110000 := c.valid
  simp only [isLeadSurrogate, isTrailSurrogate, Bool.and_eq_false_iff, decide_eq_false_iff_not]
  omega

/-- Characters are made of their code points. -/
theorem joinSurrogates_toNat (cs : List Char) : joinSurrogates (cs.map Char.toNat) = cs := by
  induction cs with
  | nil => rfl
  | cons c rest ih =>
    obtain ⟨notLead, notTrail⟩ := not_surrogate c
    cases rest with
    | nil => simp [joinSurrogates, notLead, notTrail]
    | cons d rest =>
      rw [List.map_cons, List.map_cons, joinSurrogates]
      rw [List.map_cons] at ih
      simp [notLead, notTrail, ih]

/-- The token of a string in quotes is the string. -/
theorem scan_quote (s : String) (rest : List Char) :
    scan ((quote s).toList ++ rest) = (.string s, rest) := by
  have text : (quote s).toList ++ rest
      = '\x22' :: (s.toList.flatMap quoteChar ++ '\x22' :: rest) := by
    simp [quote, quoteChars]
  have body := stringBody_quoted s.toList rest
  have notWord : (isIdentifierStart '\x22' || '\x22' == '\\') = false := by decide
  rw [text, scan, notWord]
  simp [body, joinSurrogates_toNat]

end TypedProps.Lexer
