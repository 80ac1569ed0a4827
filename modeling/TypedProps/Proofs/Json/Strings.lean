import TypedProps.Proofs.Json.Grammar
import TypedProps.Proofs.Runtime.Literals

/-!
# `TypedProps.Proofs.Json.Strings`: reading strings back

A string is read to its last quote and no further, whatever stands behind it. A generous reading
answers for every string of the grammar (`stringBody_of_isBody`), a strict one with the characters
that the string stands for (`stringBody_of_spells`). Text in quotes stands for itself
(`quotes_quote`).
-/

set_option autoImplicit false

namespace TypedProps.Json

open TypedProps.Lexer TypedProps.Text

variable {strict : Bool} {body cs : List Char} {c : Char} {n m : Nat}

/-- What has been read is handed on. -/
theorem ok_bind {α β : Type} (a : α) (next : α → Except ReadError β) :
    (Except.ok a >>= next) = next a := rfl

/-! ### Escapes -/

/-- Every character takes one byte at least. -/
theorem length_le_utf8Size (cs : List Char) (n : Nat) :
    n + cs.length ≤ cs.foldl (fun n c => n + c.utf8Size) n := by
  induction cs generalizing n with
  | nil => exact Nat.le_refl n
  | cons c cs ih =>
    have := c.utf8Size_pos
    have := ih (n + c.utf8Size)
    rw [List.foldl_cons, List.length_cons]
    omega

theorem fourDigits_append {digits : List Char} (four : digits.length = 4)
    (isNumber : hexNumber? digits = some n) (rest : List Char) :
    fourDigits (digits ++ rest) = .ok n := by
  have taken : (digits ++ rest).take 4 = digits := by rw [← four, List.take_left]
  have long : ¬ digits.foldl (fun n c => n + c.utf8Size) 0 < 4 := by
    have := length_le_utf8Size digits 0
    omega
  unfold fourDigits
  rw [taken]
  simp only [if_neg long, four, isNumber]
  rfl

theorem escape_letter {e : Char} (escaped : (e, c) ∈ escapes) (rest : List Char) :
    escape strict (e :: rest) = .ok ([c.toNat], 1) := by
  simp only [escapes, List.mem_cons, Prod.mk.injEq, List.not_mem_nil, or_false] at escaped
  rcases escaped with ⟨rfl, rfl⟩ | ⟨rfl, rfl⟩ | ⟨rfl, rfl⟩ | ⟨rfl, rfl⟩ | ⟨rfl, rfl⟩ | ⟨rfl, rfl⟩ |
    ⟨rfl, rfl⟩ | ⟨rfl, rfl⟩ <;> rfl

theorem escape_digits {digits : List Char} (four : digits.length = 4)
    (isNumber : hexNumber? digits = some n)
    (whole : strict = true → isLeadSurrogate n = false ∧ isTrailSurrogate n = false)
    (rest : List Char) : escape strict ('u' :: (digits ++ rest)) = .ok ([n], 5) := by
  have alone : (!strict || !(isLeadSurrogate n || isTrailSurrogate n)) = true := by
    cases strict with
    | false => rfl
    | true => simp [whole rfl]
  unfold escape
  simp only [fourDigits_append four isNumber, ok_bind]
  exact if_pos alone

theorem escape_pair {first second : List Char} (four : first.length = 4)
    (isNumber : hexNumber? first = some n) (lead : isLeadSurrogate n = true)
    (four' : second.length = 4) (isNumber' : hexNumber? second = some m)
    (trail : isTrailSurrogate m = true) (rest : List Char) :
    escape true ('u' :: (first ++ '\\' :: 'u' :: (second ++ rest))) = .ok ([n, m], 11) := by
  have notTrail : isTrailSurrogate n = false := by
    simp only [isLeadSurrogate, isTrailSurrogate, Bool.and_eq_true, Bool.and_eq_false_iff,
      decide_eq_true_eq, decide_eq_false_iff_not] at lead ⊢
    omega
  have behind : (first ++ '\\' :: 'u' :: (second ++ rest)).drop 4
      = '\\' :: 'u' :: (second ++ rest) := by
    rw [← four, List.drop_left]
  unfold escape
  simp only [fourDigits_append four isNumber, lead, notTrail, behind,
    fourDigits_append four' isNumber', ok_bind, trail]
  rfl

/-! ### One character of a string -/

theorem stringBody_plain (isPlain : IsPlain c) (rest : List Char) :
    stringBody strict (c :: rest)
      = (stringBody strict rest).map fun (more, left) => (c.toNat :: more, left) := by
  obtain ⟨low, notQuote, notEscape⟩ := isPlain
  have notQuote : c.toNat ≠ 0x22 := fun same => notQuote (Char.toNat_inj.mp same)
  rw [stringBody]
  simp [notQuote, notEscape, Nat.not_lt.mpr low]

/-- An escape is passed over. -/
theorem stringBody_escape (tail : List Char) {rest points read}
    (isEscape : escape strict (tail ++ rest) = .ok (points, read)) (all : tail.length = read) :
    stringBody strict ('\\' :: (tail ++ rest))
      = (stringBody strict rest).map fun (more, left) => (points ++ more, left) := by
  rw [stringBody]
  simp [isEscape, ← all]

theorem stringBody_letter {e : Char} (escaped : (e, c) ∈ escapes) (rest : List Char) :
    stringBody strict ('\\' :: e :: rest)
      = (stringBody strict rest).map fun (more, left) => (c.toNat :: more, left) :=
  stringBody_escape [e] (escape_letter escaped rest) rfl

theorem stringBody_digits {digits : List Char} (four : digits.length = 4)
    (isNumber : hexNumber? digits = some n)
    (whole : strict = true → isLeadSurrogate n = false ∧ isTrailSurrogate n = false)
    (rest : List Char) :
    stringBody strict ('\\' :: 'u' :: (digits ++ rest))
      = (stringBody strict rest).map fun (more, left) => (n :: more, left) :=
  stringBody_escape ('u' :: digits) (escape_digits four isNumber whole rest)
    (by simp [four])

theorem stringBody_pair {first second : List Char} (four : first.length = 4)
    (isNumber : hexNumber? first = some n) (lead : isLeadSurrogate n = true)
    (four' : second.length = 4) (isNumber' : hexNumber? second = some m)
    (trail : isTrailSurrogate m = true) (rest : List Char) :
    stringBody true ('\\' :: 'u' :: (first ++ '\\' :: 'u' :: (second ++ rest)))
      = (stringBody true rest).map fun (more, left) => (n :: m :: more, left) := by
  have isEscape := escape_pair four isNumber lead four' isNumber' trail rest
  have split : 'u' :: (first ++ '\\' :: 'u' :: (second ++ rest))
      = 'u' :: (first ++ '\\' :: 'u' :: second) ++ rest := by simp
  rw [split] at isEscape ⊢
  exact stringBody_escape _ isEscape (by simp [four, four'])

/-! ### Whole strings -/

/-- A generous reading takes every string. -/
theorem stringBody_of_isBody (isBody : IsBody body) (rest : List Char) :
    ∃ points, stringBody false (body ++ '\x22' :: rest) = .ok (points, rest) := by
  induction isBody with
  | nil =>
    refine ⟨[], ?_⟩
    rw [List.nil_append, stringBody]
    rfl
  | @plain c _ isPlain behind ih =>
    obtain ⟨points, read⟩ := ih
    refine ⟨c.toNat :: points, ?_⟩
    rw [List.cons_append, stringBody_plain isPlain, read]
    rfl
  | @escape _ c _ escaped behind ih =>
    obtain ⟨points, read⟩ := ih
    refine ⟨c.toNat :: points, ?_⟩
    rw [List.cons_append, List.cons_append, stringBody_letter escaped, read]
    rfl
  | @digits _ _ n four isNumber behind ih =>
    obtain ⟨points, read⟩ := ih
    refine ⟨n :: points, ?_⟩
    rw [List.cons_append, List.cons_append, List.append_assoc,
      stringBody_digits four isNumber Bool.noConfusion, read]
    rfl

theorem joinSurrogates_cons (whole : isLeadSurrogate n = false ∧ isTrailSurrogate n = false)
    (points : List Nat) : joinSurrogates (n :: points) = Char.ofNat n :: joinSurrogates points := by
  cases points <;> simp [joinSurrogates, whole]

/-- A strict reading answers with the characters that a string stands for. -/
theorem stringBody_of_spells (spells : Spells body cs) (rest : List Char) :
    ∃ points, stringBody true (body ++ '\x22' :: rest) = .ok (points, rest)
      ∧ joinSurrogates points = cs := by
  induction spells with
  | nil =>
    refine ⟨[], ?_, rfl⟩
    rw [List.nil_append, stringBody]
    rfl
  | @plain c _ _ isPlain behind ih =>
    obtain ⟨points, read, rfl⟩ := ih
    refine ⟨c.toNat :: points, ?_, ?_⟩
    · rw [List.cons_append, stringBody_plain isPlain, read]
      rfl
    · rw [joinSurrogates_cons (not_surrogate c), Char.ofNat_toNat]
  | @escape _ c _ _ escaped behind ih =>
    obtain ⟨points, read, rfl⟩ := ih
    refine ⟨c.toNat :: points, ?_, ?_⟩
    · rw [List.cons_append, List.cons_append, stringBody_letter escaped, read]
      rfl
    · rw [joinSurrogates_cons (not_surrogate c), Char.ofNat_toNat]
  | @digits _ _ _ n four isNumber whole behind ih =>
    obtain ⟨points, read, rfl⟩ := ih
    refine ⟨n :: points, ?_, joinSurrogates_cons whole points⟩
    rw [List.cons_append, List.cons_append, List.append_assoc,
      stringBody_digits four isNumber (fun _ => whole), read]
    rfl
  | @pair first second _ _ n m four isNumber lead four' isNumber' trail behind ih =>
    obtain ⟨points, read, rfl⟩ := ih
    refine ⟨n :: m :: points, ?_, by simp [joinSurrogates, lead, trail]⟩
    simp only [List.cons_append, List.append_assoc]
    rw [stringBody_pair four isNumber lead four' isNumber' trail, read]
    rfl

/-! ### Text in quotes -/

/-- A character in quotes stands for itself. -/
theorem Spells.quoteChar (spells : Spells body cs) (c : Char) :
    Spells (Text.quoteChar c ++ body) (c :: cs) := by
  -- One branch for each escape with a letter of its own, in the order in which they are tried.
  unfold Text.quoteChar
  split
  case isTrue isQuote =>
    rw [Char.toNat_inj.mp (beq_iff_eq.mp isQuote : c.toNat = '\x22'.toNat)]
    exact .escape (by simp [escapes]) spells
  split
  case isTrue isBackslash =>
    rw [beq_iff_eq.mp isBackslash]
    exact .escape (by simp [escapes]) spells
  split
  case isTrue isFeed =>
    rw [beq_iff_eq.mp isFeed]
    exact .escape (by simp [escapes]) spells
  split
  case isTrue isReturn =>
    rw [beq_iff_eq.mp isReturn]
    exact .escape (by simp [escapes]) spells
  split
  case isTrue isTab =>
    rw [beq_iff_eq.mp isTab]
    exact .escape (by simp [escapes]) spells
  split
  case isTrue isBackspace =>
    rw [Char.toNat_inj.mp (beq_iff_eq.mp isBackspace : c.toNat = '\x08'.toNat)]
    exact .escape (by simp [escapes]) spells
  split
  case isTrue isFormFeed =>
    rw [Char.toNat_inj.mp (beq_iff_eq.mp isFormFeed : c.toNat = '\x0C'.toNat)]
    exact .escape (by simp [escapes]) spells
  split
  case isTrue isControl =>
    have spelled := Spells.digits rfl (hexNumber?_digits c.toNat isControl) (not_surrogate c) spells
    rwa [Char.ofNat_toNat] at spelled
  case isFalse notQuote notBackslash _ _ _ _ _ notControl =>
    refine .plain ⟨Nat.not_lt.mp notControl, ?_, ?_⟩ spells
    · rintro rfl
      exact notQuote rfl
    · rintro rfl
      exact notBackslash rfl

/-- Text in quotes stands for itself. -/
theorem spells_quoted (cs : List Char) : Spells (cs.flatMap quoteChar) cs := by
  induction cs with
  | nil => exact .nil
  | cons c cs ih => exact ih.quoteChar c

/-- A string that stands for characters is a string. -/
theorem Spells.isBody (spells : Spells body cs) : IsBody body := by
  induction spells with
  | nil => exact .nil
  | plain isPlain _ ih => exact .plain isPlain ih
  | escape escaped _ ih => exact .escape escaped ih
  | digits four isNumber _ _ ih => exact .digits four isNumber ih
  | pair four isNumber _ four' isNumber' _ _ ih =>
    exact .digits four isNumber (.digits four' isNumber' ih)

theorem toList_quote (s : String) :
    (quote s).toList = '\x22' :: (s.toList.flatMap quoteChar ++ ['\x22']) := by
  rw [quote, String.toList_ofList, quoteChars]

theorem quotes_quote (s : String) : Quotes (quote s).toList s := by
  rw [toList_quote]
  exact .mk (a := []) nofun (spells_quoted s.toList)

/-- Texts in quotes with commas between them stand for the texts. -/
theorem sequence_quote (names : List String) :
    Sequence Quotes (",".intercalate (names.map quote)).toList names := by
  rw [String.toList_intercalate]
  induction names with
  | nil => exact .empty nofun
  | cons s names ih =>
    cases names with
    | nil => simpa using Sequence.single (quotes_quote s)
    | cons t names =>
      have both := Sequence.cons (quotes_quote s) ih
      simpa [List.intercalate] using both

end TypedProps.Json
