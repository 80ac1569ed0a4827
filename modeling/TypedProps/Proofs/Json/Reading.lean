import TypedProps.Proofs.Json.Skipping

/-!
# `TypedProps.Proofs.Json.Reading`: reading wanted values

Each reader takes the text that stands for a value from the front, blanks before it included, and
answers with the value (`bool_append`, `text_of_quotes`, `textList_of_sequence`). A loop over a
sequence goes round once for each item (`loop_more`) and stops in front of the closing bracket
(`loop_stop`).
-/

set_option autoImplicit false

namespace TypedProps.Json

variable {a b cs rest : List Char} {s : String}

namespace Reader

variable {α β : Type}

theorem bind_of_ok {x : Reader α} {next : α → Reader β} {v : α} (reads : x cs = .ok (v, rest)) :
    (x >>= next) cs = next v rest := by
  show (x cs >>= fun taken => next taken.1 taken.2) = _
  rw [reads]
  rfl

theorem map_of_ok {x : Reader α} {f : α → β} {v : α} (reads : x cs = .ok (v, rest)) :
    (f <$> x) cs = .ok (f v, rest) := by
  show (x cs >>= fun taken => pure (f taken.1, taken.2)) = _
  rw [reads]
  rfl

end Reader

open Reader

/-! ### Single characters -/

theorem peek_solid (blanks : Blanks a) {c : Char} (solid : isBlank c = false) (rest : List Char) :
    peek (a ++ c :: rest) = .ok (some c, c :: rest) := by
  have ahead := dropWhile_blanks blanks solid rest
  show Except.ok (((a ++ c :: rest).dropWhile isBlank).head?, (a ++ c :: rest).dropWhile isBlank)
    = _
  rw [ahead]
  rfl

theorem advance_cons (c : Char) (rest : List Char) : advance (c :: rest) = .ok ((), rest) := rfl

theorem colon_append (blanks : Blanks a) (rest : List Char) :
    colon (a ++ ':' :: rest) = .ok ((), rest) := by
  unfold colon
  rw [bind_of_ok (peek_solid blanks rfl rest)]
  rfl

/-! ### Strings and words -/

theorem string_of_spells {body : List Char} (spells : Spells body s.toList) (rest : List Char) :
    string ('\x22' :: (body ++ '\x22' :: rest)) = .ok (s, rest) := by
  obtain ⟨points, read, joined⟩ := stringBody_of_spells spells rest
  unfold string
  have here : (get : Reader _) (body ++ '\x22' :: rest)
    = .ok (body ++ '\x22' :: rest, body ++ '\x22' :: rest) := rfl
  rw [bind_of_ok (advance_cons _ _), bind_of_ok here, read]
  show Except.ok (String.ofList (Lexer.joinSurrogates points), rest) = _
  rw [joined, String.ofList_toList]

theorem text_of_quotes (quotes : Quotes cs s) (rest : List Char) :
    text (cs ++ rest) = .ok (s, rest) := by
  obtain ⟨before, spells⟩ := quotes
  simp only [List.append_assoc, List.cons_append, List.nil_append]
  unfold text
  rw [bind_of_ok (peek_solid before rfl _)]
  exact string_of_spells spells rest

theorem bool_append (blanks : Blanks a) (value : Bool) (rest : List Char) :
    bool (a ++ ((if value then "true" else "false").toList ++ rest)) = .ok (value, rest) := by
  cases value with
  | false =>
    have read : word "alse".toList ("alse".toList ++ rest) = .ok ((), rest) := run_word _ rest
    show bool (a ++ 'f' :: ("alse".toList ++ rest)) = _
    unfold bool
    rw [bind_of_ok (peek_solid blanks rfl _)]
    exact (bind_of_ok (advance_cons _ _)).trans (bind_of_ok read)
  | true =>
    have read : word "rue".toList ("rue".toList ++ rest) = .ok ((), rest) := run_word _ rest
    show bool (a ++ 't' :: ("rue".toList ++ rest)) = _
    unfold bool
    rw [bind_of_ok (peek_solid blanks rfl _)]
    exact (bind_of_ok (advance_cons _ _)).trans (bind_of_ok read)

/-! ### Sequences -/

section Loop

variable {σ : Type} {step : σ → Reader (σ × Bool)} {before after : σ}

theorem loop_more (goesOn : step before cs = .ok ((after, true), rest))
    (shorter : rest.length < cs.length) : loop step before cs = loop step after rest := by
  rw [loop, goesOn]
  exact if_pos shorter

theorem loop_stop (ends : step before cs = .ok ((after, false), rest)) :
    loop step before cs = .ok (after, rest) := by
  rw [loop, ends]
  rfl

end Loop

/-- A sequence may end in front of its closing bracket, and goes on with a comma. -/
theorem Further.ends {α : Type} {Item : List Char → α → Prop} {xs : List α}
    (further : Further Item cs xs) {c : Char} (closes : c = ']' ∨ c = '}') (rest : List Char) :
    Ends (cs ++ c :: rest) := by
  cases further with
  | stop blanks => exact blanks.ends (.inr closes) rest
  | more blanks =>
    rw [List.append_assoc]
    exact blanks.ends (.inl rfl) _

/-! ### Lists of strings -/

theorem nextElement_end (first : Bool) (blanks : Blanks b) (rest : List Char) :
    nextElement first (b ++ ']' :: rest) = .ok (false, ']' :: rest) := by
  unfold nextElement
  rw [bind_of_ok (peek_solid blanks rfl rest)]
  rfl

theorem nextText_end (acc : List String) (first : Bool) (blanks : Blanks b) (rest : List Char) :
    nextText (acc, first) (b ++ ']' :: rest) = .ok (((acc, first), false), ']' :: rest) := by
  rw [nextText]
  exact bind_of_ok (nextElement_end first blanks rest)

/-- The first string of a list. -/
theorem nextText_first (acc : List String) (quotes : Quotes cs s) (rest : List Char) :
    nextText (acc, true) (cs ++ rest) = .ok (((s :: acc, false), true), rest) := by
  obtain @⟨a, body, _, before, spells⟩ := quotes
  have found : nextElement true (a ++ '\x22' :: (body ++ ['\x22']) ++ rest)
      = .ok (true, '\x22' :: (body ++ ['\x22']) ++ rest) := by
    unfold nextElement
    rw [List.append_assoc, List.cons_append, bind_of_ok (peek_solid before rfl _)]
    rfl
  have read := text_of_quotes (.mk (a := []) nofun spells) rest
  rw [nextText, bind_of_ok found]
  exact bind_of_ok read

/-- A string behind a comma. -/
theorem nextText_comma (acc : List String) (blanks : Blanks b) (quotes : Quotes cs s)
    (rest : List Char) :
    nextText (acc, false) (b ++ ',' :: (cs ++ rest)) = .ok (((s :: acc, false), true), rest) := by
  obtain @⟨a, body, _, before, spells⟩ := quotes
  have found : nextElement false (b ++ ',' :: (a ++ '\x22' :: (body ++ ['\x22']) ++ rest))
      = .ok (true, '\x22' :: (body ++ ['\x22']) ++ rest) := by
    unfold nextElement
    rw [bind_of_ok (peek_solid blanks rfl _), List.append_assoc, List.cons_append]
    exact (bind_of_ok (advance_cons _ _)).trans
      (bind_of_ok (peek_solid before (rfl : isBlank '\x22' = false) _))
  have read := text_of_quotes (.mk (a := []) nofun spells) rest
  rw [nextText, bind_of_ok found]
  exact bind_of_ok read

theorem loop_nextText_of_further {ss : List String} (further : Further Quotes cs ss)
    (acc : List String) (rest : List Char) :
    ∃ first, loop nextText (acc, false) (cs ++ ']' :: rest)
      = .ok ((ss.reverse ++ acc, first), ']' :: rest) := by
  induction further generalizing acc with
  | stop blanks => exact ⟨false, loop_stop (nextText_end acc false blanks rest)⟩
  | @more b i cs s ss blanks item more ih =>
    obtain ⟨first, read⟩ := ih (s :: acc)
    refine ⟨first, ?_⟩
    rw [List.append_assoc, List.cons_append, List.append_assoc,
      loop_more (nextText_comma acc blanks item _) (by simp; omega), read]
    simp

/-- A list of strings is read as the strings that it stands for. -/
theorem textList_of_sequence {ss : List String} (blanks : Blanks a)
    (sequence : Sequence Quotes cs ss) (rest : List Char) :
    textList (a ++ '[' :: (cs ++ ']' :: rest)) = .ok (ss, rest) := by
  -- The loop collects the strings in reverse; whether the first one is still to come does not
  -- matter behind it.
  have read : ∃ first, loop nextText ([], true) (cs ++ ']' :: rest)
      = .ok ((ss.reverse, first), ']' :: rest) := by
    cases sequence with
    | empty inner => exact ⟨true, loop_stop (nextText_end [] true inner rest)⟩
    | @begun i cs s ss item further =>
      obtain ⟨first, read⟩ := loop_nextText_of_further further [s] rest
      have shorter : (cs ++ ']' :: rest).length < (i ++ (cs ++ ']' :: rest)).length := by
        obtain ⟨-, -⟩ := item
        simp
        omega
      refine ⟨first, ?_⟩
      rw [List.append_assoc, loop_more (nextText_first [] item _) shorter, read]
      simp
  obtain ⟨first, read⟩ := read
  unfold textList
  rw [bind_of_ok (peek_solid blanks rfl _)]
  refine (bind_of_ok (advance_cons _ _)).trans ((bind_of_ok read).trans ?_)
  show Except.ok (ss.reverse.reverse, rest) = _
  rw [List.reverse_reverse]

/-! ### Keys and values of objects -/

theorem nextKey_end (first : Bool) (blanks : Blanks b) (rest : List Char) :
    nextKey first (b ++ '}' :: rest) = .ok (none, '}' :: rest) := by
  unfold nextKey
  rw [bind_of_ok (peek_solid blanks rfl rest)]
  rfl

theorem nextKey_first (quotes : Quotes cs s) (rest : List Char) :
    nextKey true (cs ++ rest) = .ok (some s, rest) := by
  obtain @⟨a, body, _, before, spells⟩ := quotes
  have read : (some <$> string) ('\x22' :: (body ++ '\x22' :: rest)) = .ok (some s, rest) :=
    map_of_ok (string_of_spells spells rest)
  simp only [List.append_assoc, List.cons_append, List.nil_append]
  unfold nextKey
  rw [bind_of_ok (peek_solid before rfl _)]
  exact (bind_of_ok (peek_solid (a := []) nofun (rfl : isBlank '\x22' = false) _)).trans read

theorem nextKey_comma (blanks : Blanks b) (quotes : Quotes cs s) (rest : List Char) :
    nextKey false (b ++ ',' :: (cs ++ rest)) = .ok (some s, rest) := by
  obtain @⟨a, body, _, before, spells⟩ := quotes
  have read : (some <$> string) ('\x22' :: (body ++ '\x22' :: rest)) = .ok (some s, rest) :=
    map_of_ok (string_of_spells spells rest)
  simp only [List.append_assoc, List.cons_append, List.nil_append]
  unfold nextKey
  rw [bind_of_ok (peek_solid blanks rfl _)]
  exact (bind_of_ok (advance_cons _ _)).trans
    ((bind_of_ok (peek_solid before (rfl : isBlank '\x22' = false) _)).trans read)

theorem skipValue_of_isText (blanks : Blanks a) (isText : IsText .value cs) (ends : Ends rest) :
    skipValue false (a ++ (cs ++ rest)) = .ok ((), rest) := by
  unfold skipValue
  have here : (get : Reader _) (a ++ (cs ++ rest))
    = .ok (a ++ (cs ++ rest), a ++ (cs ++ rest)) := rfl
  rw [bind_of_ok here, skip_of_isText isText blanks ends]
  rfl

end TypedProps.Json
