import TypedProps.Proofs.Json.Strings

/-!
# `TypedProps.Proofs.Json.Skipping`: passing over a value

A value that nobody asks for is passed over whatever it is: nothing but its own text is taken
(`skip_of_isText`). Each lemma in front of this is one step of `skip`, for one kind of part.
-/

set_option autoImplicit false

namespace TypedProps.Json

/-! ### Numbers -/

variable {strict : Bool} {whole places power follow : List Char}

/-- A value may end in front of a text. -/
def Ends (follow : List Char) : Prop :=
  ∀ c ∈ follow.head?, isBlank c = true ∨ c = ',' ∨ c = ']' ∨ c = '}'

/-- What may stand behind a value goes on with no number. -/
theorem Ends.head? {follow : List Char} (ends : Ends follow) {c : Char} (head : c ∈ follow.head?) :
    c.isDigit = false ∧ c ≠ '.' ∧ c ≠ 'e' ∧ c ≠ 'E' := by
  have known := ends c head
  simp only [isBlank, Bool.or_eq_true, beq_iff_eq] at known
  rcases known with (((rfl | rfl) | rfl) | rfl) | rfl | rfl | rfl <;> decide

/-- Digits are passed over up to where there is none. -/
theorem digits_append (strict : Bool) {ds follow : List Char} (isDigits : Digits ds)
    (ends : ∀ c ∈ follow.head?, c.isDigit = false) : digits strict (ds ++ follow) = .ok follow := by
  obtain ⟨nonempty, all⟩ := isDigits
  obtain ⟨d, rest, rfl⟩ := List.exists_cons_of_ne_nil nonempty
  have left : (rest ++ follow).dropWhile Char.isDigit = follow := by
    rw [List.dropWhile_append_of_pos fun c mem => all c (List.mem_cons_of_mem _ mem)]
    cases follow with
    | nil => rfl
    | cons c more => exact List.dropWhile_cons_of_neg (by simp [ends c rfl])
  rw [List.cons_append, digits, if_pos (all d List.mem_cons_self), left]

/-- Passes over the power of ten of a number. -/
def powerEnd (strict : Bool) (cs : List Char) : Except ReadError (List Char) :=
  match cs with
  | e :: power =>
    if e == 'e' || e == 'E' then
      match power with
      | sign :: ds => digits strict (if sign == '+' || sign == '-' then ds else power)
      | [] => digits strict []
    else pure cs
  | [] => pure []

/-- Passes over what stands behind the whole part of a number. -/
def fractionEnd (strict : Bool) (cs : List Char) : Except ReadError (List Char) := do
  let cs ← match cs with
    | '.' :: places => digits strict places
    | _ => pure cs
  powerEnd strict cs

theorem numberEnd_minus {c : Char} (other : c ≠ '-') (cs : List Char) :
    numberEnd strict ('-' :: c :: cs) = numberEnd strict (c :: cs) := by
  unfold numberEnd
  split
  · rename_i same
    cases same
    split
    · rename_i same
      exact absurd (List.cons.inj same).1 other
    · rfl
  · rename_i no
    exact absurd rfl (no _)

theorem numberEnd_append (strict : Bool) (isWhole : IsWhole whole)
    (ends : ∀ c ∈ follow.head?, c.isDigit = false) :
    numberEnd strict (whole ++ follow) = fractionEnd strict follow := by
  -- A zero is read by itself, and no digit may follow it; all other numbers begin with a run of
  -- digits.
  rcases isWhole with rfl | ⟨isDigits, notZero⟩
  · cases follow with
    | nil => rfl
    | cons c rest =>
      have step : numberEnd strict ('0' :: c :: rest)
          = if c.isDigit then throw .malformed >>= fractionEnd strict
            else pure (c :: rest) >>= fractionEnd strict := rfl
      show numberEnd strict ('0' :: c :: rest) = _
      rw [step, ends c rfl]
      rfl
  · have read := digits_append strict isDigits ends
    obtain ⟨d, ds, rfl⟩ := List.exists_cons_of_ne_nil isDigits.1
    have digit := isDigits.2 d List.mem_cons_self
    have notMinus : d ≠ '-' := by
      rintro rfl
      cases digit
    have notZero : d ≠ '0' := by
      rintro rfl
      exact notZero rfl
    have step : numberEnd strict (d :: (ds ++ follow))
        = digits strict (d :: (ds ++ follow)) >>= fractionEnd strict := by
      unfold numberEnd
      split
      · rename_i same
        exact absurd (List.cons.inj same).1 notMinus
      dsimp only
      split
      · rename_i same
        exact absurd (List.cons.inj same).1 notZero
      rfl
    rw [List.cons_append] at read ⊢
    rw [step, read]
    rfl

theorem powerEnd_append (strict : Bool) (isPower : IsPower power) (ends : Ends follow) :
    powerEnd strict (power ++ follow) = .ok follow := by
  rcases isPower with rfl | ⟨e, s, ds, isE, signed, isDigits, rfl⟩
  · cases follow with
    | nil => rfl
    | cons c rest =>
      obtain ⟨-, -, notE, notE'⟩ := ends.head? (rfl : c ∈ (c :: rest).head?)
      simp [powerEnd, notE, notE']
      rfl
  · have read := digits_append strict isDigits fun c head => (ends.head? head).1
    obtain ⟨d, ds, rfl⟩ := List.exists_cons_of_ne_nil isDigits.1
    -- A digit is no sign, so it is not taken for one where there is none.
    have unsigned : (d == '+' || d == '-') = false := by
      have digit := isDigits.2 d List.mem_cons_self
      simp only [Bool.or_eq_false_iff, beq_eq_false_iff_ne]
      constructor <;> rintro rfl <;> cases digit
    have step (c : Char) (rest : List Char) : powerEnd strict (e :: c :: rest)
        = digits strict (if c == '+' || c == '-' then rest else c :: rest) := by
      rcases isE with rfl | rfl <;> rfl
    rcases signed with rfl | rfl | rfl
    · rw [List.nil_append, List.cons_append, List.cons_append, step, unsigned]
      exact read
    · exact (step _ _).trans read
    · exact (step _ _).trans read

/-- Neither a power of ten nor what may stand behind a value begins like places. -/
theorem head?_power (isPower : IsPower power) (ends : Ends follow) {c : Char}
    (head : c ∈ (power ++ follow).head?) : c.isDigit = false ∧ c ≠ '.' := by
  rcases isPower with rfl | ⟨e, s, ds, isE, -, -, rfl⟩
  · obtain ⟨notDigit, notDot, -⟩ := ends.head? head
    exact ⟨notDigit, notDot⟩
  · obtain rfl : e = c := Option.some.inj head
    rcases isE with rfl | rfl <;> decide

theorem fractionEnd_append (strict : Bool) (isPlaces : IsPlaces places)
    (isPower : IsPower power) (ends : Ends follow) :
    fractionEnd strict (places ++ (power ++ follow)) = .ok follow := by
  have read := powerEnd_append strict isPower ends
  rcases isPlaces with rfl | ⟨ds, isDigits, rfl⟩
  · unfold fractionEnd
    split
    · rename_i dot
      have head : '.' ∈ (power ++ follow).head? := by
        rw [← List.nil_append (power ++ follow), dot]
        rfl
      exact absurd rfl (head?_power isPower ends head).2
    · exact read
  · have passed := digits_append strict isDigits fun c head => (head?_power isPower ends head).1
    show digits strict (ds ++ (power ++ follow)) >>= powerEnd strict = _
    rw [passed]
    exact read

theorem numberEnd_of_isNumber (strict : Bool) {cs follow : List Char} (isNumber : IsNumber cs)
    (ends : Ends follow) : numberEnd strict (cs ++ follow) = .ok follow := by
  obtain @⟨sign, whole, places, power, signed, isWhole, isPlaces, isPower⟩ := isNumber
  -- No digit follows the whole part: what comes is a point, the letter of a power or the end.
  have noDigit : ∀ c ∈ (places ++ (power ++ follow)).head?, c.isDigit = false := by
    intro c head
    rcases isPlaces with rfl | ⟨ds, -, rfl⟩
    · exact (head?_power isPower ends head).1
    · obtain rfl : '.' = c := Option.some.inj head
      rfl
  have read := numberEnd_append strict isWhole noDigit
  rw [fractionEnd_append strict isPlaces isPower ends] at read
  have text : sign ++ (whole ++ (places ++ power)) ++ follow
      = sign ++ (whole ++ (places ++ (power ++ follow))) := by
    simp only [List.append_assoc]
  rw [text]
  rcases signed with rfl | rfl
  · exact read
  · obtain ⟨c, rest, rfl⟩ : ∃ c rest, whole = c :: rest := by
      rcases isWhole with rfl | ⟨isDigits, -⟩
      · exact ⟨_, _, rfl⟩
      · exact List.exists_cons_of_ne_nil isDigits.1
    have notMinus : c ≠ '-' := by
      rcases isWhole with zero | ⟨isDigits, -⟩
      · cases zero
        decide
      · rintro rfl
        cases isDigits.2 '-' List.mem_cons_self
    exact (numberEnd_minus notMinus _).trans read

/-- A number begins with a minus or a digit. -/
theorem IsNumber.head? {cs : List Char} (isNumber : IsNumber cs) :
    ∃ c rest, cs = c :: rest ∧ (c = '-' ∨ c.isDigit = true) := by
  obtain @⟨sign, whole, places, power, signed, isWhole, -, -⟩ := isNumber
  obtain ⟨d, rest, rfl, digit⟩ : ∃ d rest, whole = d :: rest ∧ d.isDigit = true := by
    rcases isWhole with rfl | ⟨⟨nonempty, all⟩, -⟩
    · exact ⟨'0', [], rfl, rfl⟩
    · obtain ⟨d, rest, rfl⟩ := List.exists_cons_of_ne_nil nonempty
      exact ⟨d, rest, rfl, all d List.mem_cons_self⟩
  rcases signed with rfl | rfl
  · exact ⟨d, _, rfl, .inr digit⟩
  · exact ⟨'-', _, rfl, .inl rfl⟩

/-- The beginning of a number tells it from every other value. -/
theorem solid_of_number {c : Char} (begins : c = '-' ∨ c.isDigit = true) :
    isBlank c = false ∧ c ≠ '[' ∧ c ≠ ']' ∧ c ≠ '{' ∧ c.toNat ≠ 0x22 ∧ c ≠ 't' ∧ c ≠ 'f'
      ∧ c ≠ 'n' := by
  rcases begins with rfl | digit
  · decide
  · have bounds : 48 ≤ c.toNat ∧ c.toNat ≤ 57 := by
      simpa [Char.isDigit, UInt32.le_iff_toNat_le] using digit
    have ne (d : Char) (outside : d.toNat < 48 ∨ 57 < d.toNat) : c ≠ d := by
      rintro rfl
      omega
    refine ⟨?_, ne _ (by decide), ne _ (by decide), ne _ (by decide), by omega, ne _ (by decide),
      ne _ (by decide), ne _ (by decide)⟩
    simp [isBlank, ne ' ' (by decide), ne '\n' (by decide), ne '\t' (by decide),
      ne '\r' (by decide)]

/-! ### The steps -/

/-- The bracket that opens a frame. -/
def Frame.opening : Frame → Char
  | .list => '['
  | .object => '{'

/-- The bracket that closes a frame. -/
def Frame.closing : Frame → Char
  | .list => ']'
  | .object => '}'

theorem Frame.solid_opening (frame : Frame) : isBlank frame.opening = false := by
  cases frame <;> rfl

theorem Frame.solid_closing (frame : Frame) : isBlank frame.closing = false := by
  cases frame <;> rfl

/-- What stands behind the opening bracket. -/
def Frame.first : Frame → Expected
  | .list => .valueOrEnd
  | .object => .keyOrEnd

/-- What stands behind a comma. -/
def Frame.next : Frame → Expected
  | .list => .value
  | .object => .key

section Steps

variable {frames : List Frame} {a rest : List Char}

theorem dropWhile_blanks (blanks : Blanks a) {c : Char} (solid : isBlank c = false)
    (rest : List Char) : (a ++ c :: rest).dropWhile isBlank = c :: rest := by
  rw [List.dropWhile_append_of_pos blanks]
  exact List.dropWhile_cons_of_neg (by simp [solid])

/-- A word is read to its end. -/
theorem run_word (w rest : List Char) : (word w).run (w ++ rest) = .ok ((), rest) := by
  induction w with
  | nil => rfl
  | cons c cs ih =>
    rw [List.cons_append, word]
    simpa using ih

theorem skip_word (blanks : Blanks a) {w : String} (known : w ∈ ["true", "false", "null"]) :
    skip false frames .value (a ++ (w.toList ++ rest)) = skip false frames .more rest := by
  simp only [List.mem_cons, List.not_mem_nil, or_false] at known
  rcases known with rfl | rfl | rfl
  · show skip false frames .value (a ++ 't' :: ("rue".toList ++ rest)) = _
    rw [skip.eq_def]
    simp only [dropWhile_blanks blanks (rfl : isBlank 't' = false), run_word]
    simp [ok_bind]
    omega
  · show skip false frames .value (a ++ 'f' :: ("alse".toList ++ rest)) = _
    rw [skip.eq_def]
    simp only [dropWhile_blanks blanks (rfl : isBlank 'f' = false), run_word]
    simp [ok_bind]
    omega
  · show skip false frames .value (a ++ 'n' :: ("ull".toList ++ rest)) = _
    rw [skip.eq_def]
    simp only [dropWhile_blanks blanks (rfl : isBlank 'n' = false), run_word]
    simp [ok_bind]
    omega

theorem skip_number (blanks : Blanks a) {cs : List Char} (isNumber : IsNumber cs)
    (ends : Ends rest) :
    skip false frames .value (a ++ (cs ++ rest)) = skip false frames .more rest := by
  have read := numberEnd_of_isNumber false isNumber ends
  obtain ⟨c, tail, rfl, begins⟩ := isNumber.head?
  obtain ⟨solid, noList, -, noObject, noQuote, noTrue, noFalse, noNull⟩ := solid_of_number begins
  have begins : (c == '-' || c.isDigit) = true := by simpa using begins
  rw [List.cons_append] at read ⊢
  rw [skip.eq_def]
  simp only [dropWhile_blanks blanks solid, read]
  simp only [beq_eq_false_iff_ne.mpr noList, beq_eq_false_iff_ne.mpr noObject,
    beq_eq_false_iff_ne.mpr noQuote, beq_eq_false_iff_ne.mpr noTrue,
    beq_eq_false_iff_ne.mpr noFalse, beq_eq_false_iff_ne.mpr noNull, begins, Bool.false_eq_true,
    if_false, if_true, ok_bind]
  simp
  omega

theorem skip_string (blanks : Blanks a) {body : List Char} (isBody : IsBody body) :
    skip false frames .value (a ++ '\x22' :: (body ++ '\x22' :: rest))
      = skip false frames .more rest := by
  obtain ⟨points, read⟩ := stringBody_of_isBody isBody rest
  rw [skip.eq_def]
  simp only [dropWhile_blanks blanks (rfl : isBlank '\x22' = false), read]
  simp [ok_bind]
  omega

theorem skip_key (blanks : Blanks a) {k b : List Char} (isBody : IsBody k) (behind : Blanks b) :
    skip false frames .key (a ++ '\x22' :: (k ++ '\x22' :: (b ++ ':' :: rest)))
      = skip false frames .value rest := by
  obtain ⟨points, read⟩ := stringBody_of_isBody isBody (b ++ ':' :: rest)
  rw [skip.eq_def]
  simp only [dropWhile_blanks blanks (rfl : isBlank '\x22' = false), read]
  simp only [ok_bind, dropWhile_blanks behind (rfl : isBlank ':' = false)]
  simp
  omega

theorem skip_opening (frame : Frame) (blanks : Blanks a) :
    skip false frames .value (a ++ frame.opening :: rest)
      = skip false (frame :: frames) frame.first rest := by
  rw [skip.eq_def]
  simp only [dropWhile_blanks blanks frame.solid_opening]
  cases frame
  all_goals
    simp [Frame.opening, Frame.first]
    omega

/-- Nothing stands between the brackets. -/
theorem skip_first_closing (frame : Frame) (blanks : Blanks a) :
    skip false (frame :: frames) frame.first (a ++ frame.closing :: rest)
      = skip false frames .more rest := by
  rw [skip.eq_def]
  simp only [dropWhile_blanks blanks frame.solid_closing]
  cases frame
  all_goals
    simp [Frame.closing, Frame.first]
    omega

/-- Something stands between the brackets. -/
theorem skip_first (frame : Frame) (blanks : Blanks a) {c : Char} (solid : isBlank c = false)
    (noEnd : c ≠ frame.closing) : skip false frames frame.first (a ++ c :: rest)
      = skip false frames frame.next (a ++ c :: rest) := by
  rw [skip.eq_def, skip.eq_def false frames frame.next]
  cases frame
  all_goals
    simp only [Frame.first, Frame.next, dropWhile_blanks blanks solid]
    split
    · rename_i same
      exact absurd (List.cons.inj same).1 noEnd
    · rfl

theorem skip_comma (frame : Frame) (blanks : Blanks a) :
    skip false (frame :: frames) .more (a ++ ',' :: rest)
      = skip false (frame :: frames) frame.next rest := by
  rw [skip.eq_def]
  simp only [dropWhile_blanks blanks (rfl : isBlank ',' = false)]
  cases frame
  all_goals
    simp [Frame.next]
    omega

theorem skip_closing (frame : Frame) (blanks : Blanks a) :
    skip false (frame :: frames) .more (a ++ frame.closing :: rest)
      = skip false frames .more rest := by
  rw [skip.eq_def]
  simp only [dropWhile_blanks blanks frame.solid_closing]
  cases frame
  all_goals
    simp [Frame.closing]
    omega

theorem skip_end : skip false [] .more rest = .ok rest := by
  rw [skip.eq_def]

end Steps

/-! ### Whole values -/

/-- What may stand behind a value begins with a comma or a closing bracket. -/
theorem Blanks.ends {a : List Char} (blanks : Blanks a) {c : Char}
    (ends : c = ',' ∨ c = ']' ∨ c = '}') (rest : List Char) : Ends (a ++ c :: rest) := by
  cases a with
  | nil =>
    rintro d head
    obtain rfl : c = d := Option.some.inj head
    exact .inr ends
  | cons b a =>
    rintro d head
    obtain rfl : b = d := Option.some.inj head
    exact .inl (blanks b List.mem_cons_self)

/-- A part of a value is passed over, wherever it stands and whatever stands behind it. -/
def Skips : Part → List Char → Prop
  | .value, cs => ∀ frames a rest, Blanks a → Ends rest →
      skip false frames .value (a ++ (cs ++ rest)) = skip false frames .more rest
  | .elements, cs => ∀ frames rest,
      skip false (.list :: frames) .value (cs ++ ']' :: rest) = skip false frames .more rest
  | .members, cs => ∀ frames rest,
      skip false (.object :: frames) .key (cs ++ '}' :: rest) = skip false frames .more rest

/-- How a part of a value begins. -/
def Begins : Part → List Char → Prop
  | .value, cs => ∃ c rest, cs = c :: rest ∧ isBlank c = false ∧ c ≠ ']'
  | .elements, cs => ∃ a c rest, cs = a ++ c :: rest ∧ Blanks a ∧ isBlank c = false ∧ c ≠ ']'
  | .members, cs => ∃ a rest, cs = a ++ '\x22' :: rest ∧ Blanks a

theorem begins_of_isText {part : Part} {cs : List Char} (isText : IsText part cs) :
    Begins part cs := by
  induction isText with
  | word known =>
    simp only [List.mem_cons, List.not_mem_nil, or_false] at known
    rcases known with rfl | rfl | rfl
    · exact ⟨'t', _, rfl, rfl, by decide⟩
    · exact ⟨'f', _, rfl, rfl, by decide⟩
    · exact ⟨'n', _, rfl, rfl, by decide⟩
  | number isNumber =>
    obtain ⟨c, rest, rfl, begins⟩ := isNumber.head?
    obtain ⟨solid, -, noEnd, -⟩ := solid_of_number begins
    exact ⟨c, rest, rfl, solid, noEnd⟩
  | string => exact ⟨'\x22', _, rfl, rfl, by decide⟩
  | emptyList | list => exact ⟨'[', _, rfl, rfl, by decide⟩
  | emptyObject | object => exact ⟨'{', _, rfl, rfl, by decide⟩
  | element before _ _ ih | elements before _ _ _ ih =>
    obtain ⟨c, rest, rfl, solid, noEnd⟩ := ih
    exact ⟨_, c, _, rfl, before, solid, noEnd⟩
  | member before | members before => exact ⟨_, _, rfl, before⟩

/-- A part of a value is passed over. -/
theorem skips_of_isText {part : Part} {cs : List Char} (isText : IsText part cs) :
    Skips part cs := by
  -- A part may stand in any frames and before any rest, so both are general: an inner part is
  -- followed by what the outer one has left.
  induction isText with
  | word known => exact fun _ _ _ blanks _ => skip_word blanks known
  | number isNumber => exact fun _ _ _ blanks ends => skip_number blanks isNumber ends
  | string isBody =>
    intro frames a rest blanks _
    rw [List.cons_append, List.append_assoc]
    exact skip_string blanks isBody
  | emptyList inner =>
    intro frames a rest blanks _
    rw [List.cons_append, List.append_assoc]
    exact (skip_opening .list blanks).trans (skip_first_closing .list inner)
  | list elements ih =>
    intro frames a rest blanks _
    obtain ⟨b, c, es, rfl, inner, solid, noEnd⟩ := begins_of_isText elements
    have passed := ih frames rest
    rw [List.append_assoc] at passed
    rw [List.cons_append, List.append_assoc, List.append_assoc]
    exact (skip_opening .list blanks).trans ((skip_first .list inner solid noEnd).trans passed)
  | emptyObject inner =>
    intro frames a rest blanks _
    rw [List.cons_append, List.append_assoc]
    exact (skip_opening .object blanks).trans (skip_first_closing .object inner)
  | object members ih =>
    intro frames a rest blanks _
    obtain ⟨b, ms, rfl, inner⟩ := begins_of_isText members
    have passed := ih frames rest
    rw [List.append_assoc] at passed
    rw [List.cons_append, List.append_assoc, List.append_assoc]
    exact (skip_opening .object blanks).trans
      ((skip_first .object inner rfl (by decide)).trans passed)
  | element before value after ih =>
    intro frames rest
    simp only [List.append_assoc]
    exact (ih _ _ _ before (after.ends (.inr (.inl rfl)) rest)).trans (skip_closing .list after)
  | elements before value after more ih ihMore =>
    intro frames rest
    simp only [List.append_assoc, List.cons_append]
    exact (ih _ _ _ before (after.ends (.inl rfl) _)).trans
      ((skip_comma .list after).trans (ihMore frames rest))
  | member before key behind ahead value after ih =>
    intro frames rest
    simp only [List.append_assoc, List.cons_append]
    exact (skip_key before key behind).trans
      ((ih _ _ _ ahead (after.ends (.inr (.inr rfl)) rest)).trans (skip_closing .object after))
  | members before key behind ahead value after more ih ihMore =>
    intro frames rest
    simp only [List.append_assoc, List.cons_append]
    exact (skip_key before key behind).trans
      ((ih _ _ _ ahead (after.ends (.inl rfl) _)).trans
        ((skip_comma .object after).trans (ihMore frames rest)))

/-- A value is passed over, and nothing but it. -/
theorem skip_of_isText {cs a rest : List Char} (isText : IsText .value cs) (blanks : Blanks a)
    (ends : Ends rest) : skip false [] .value (a ++ (cs ++ rest)) = .ok rest :=
  (skips_of_isText isText [] a rest blanks ends).trans skip_end

end TypedProps.Json
