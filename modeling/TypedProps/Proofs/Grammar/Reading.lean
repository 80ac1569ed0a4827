import TypedProps.Grammar.Modules
import TypedProps.Proofs.Grammar.Keys

/-!
# `TypedProps.Proofs.Grammar.Reading`: reading what stands in front of a cursor

A parser moves a cursor through a text. This module says where a cursor is that stands in front of
a known text (`Cursor.Stands`), what it is when it has passed over a token, and what the parts come
to of which parsers are made. `Parser.Reads` says that a parser reads just one text, with another
text behind it.
-/

set_option autoImplicit false

namespace TypedProps

open TypedProps.Text

namespace Lexer

/-! ### Texts without a gap in front -/

/-- No blanks and comments are in front of a text. -/
def Solid (text : List Char) : Prop :=
  ∀ (owns seen : Bool) (found : List String),
    gap owns .blank seen found text = ⟨seen, found, text⟩

theorem solid_nil : Solid [] := fun owns seen found => by rw [gap]

theorem solid_cons {c : Char} (rest : List Char) (notBreak : isLineBreak c = false)
    (notBlank : isScriptBlank c = false) (notSlash : c ≠ '/') : Solid (c :: rest) := by
  intro owns seen found
  rw [gap]
  · simp [notBreak, notBlank]
  · rintro rest rfl
    exact absurd rfl notSlash
  · rintro rest rfl
    exact absurd rfl notSlash

/-- A space is passed over. -/
theorem gap_space (owns seen : Bool) (found : List String) (text : List Char) :
    gap owns .blank seen found (' ' :: text) = gap owns .blank seen found text := by
  rw [gap]
  · rfl
  · simp
  · simp

/-! ### Marks and words -/

/-- The marks around and between the parts of a type are not the beginning of longer ones. -/
theorem mark?_of_type (rest : List Char) :
    mark? ('<' :: rest) = some (.less, rest) ∧ mark? ('>' :: rest) = some (.greater, rest) ∧
      mark? ('|' :: ' ' :: rest) = some (.bar, ' ' :: rest) := by
  simp [mark?, marks, List.firstM, dropPrefix?]

theorem scan_less (rest : List Char) : scan ('<' :: rest) = (.mark .less, rest) := by
  obtain ⟨reads, -, -⟩ := mark?_of_type rest
  rw [scan, reads]
  rfl

theorem scan_greater (rest : List Char) : scan ('>' :: rest) = (.mark .greater, rest) := by
  obtain ⟨-, reads, -⟩ := mark?_of_type rest
  rw [scan, reads]
  rfl

theorem scan_bar (rest : List Char) : scan ('|' :: ' ' :: rest) = (.mark .bar, ' ' :: rest) := by
  obtain ⟨-, -, reads⟩ := mark?_of_type rest
  rw [scan, reads]
  rfl

/-- No word goes on in a text. -/
def EndsWord (text : List Char) : Prop :=
  ∀ c ∈ text.head?, isIdentifierPart c = false ∧ c ≠ '\\'

/-- Whether a text is a word of letters. -/
def isLetters (text : List Char) : Bool := !text.isEmpty && text.all Char.isAlpha

theorem code_of_isAlpha {c : Char} (letter : c.isAlpha = true) : 65 ≤ c.toNat ∧ c.toNat ≤ 122 := by
  have upper : 'A'.toNat = 65 ∧ 'Z'.toNat = 90 := by decide
  have lower : 'a'.toNat = 97 ∧ 'z'.toNat = 122 := by decide
  have ranges : (decide ('A'.val ≤ c.val ∧ c.val ≤ 'Z'.val)
      || decide ('a'.val ≤ c.val) && decide (c.val ≤ 'z'.val)) = true := letter
  simp only [Bool.or_eq_true, Bool.and_eq_true, decide_eq_true_eq, UInt32.le_iff_toNat_le] at ranges
  simp only [Char.toNat] at upper lower ⊢
  omega

theorem code_of_isDigit {c : Char} (digit : c.isDigit = true) : 48 ≤ c.toNat ∧ c.toNat ≤ 57 := by
  have range : '0'.toNat = 48 ∧ '9'.toNat = 57 := by decide
  simp only [Char.isDigit, Bool.and_eq_true, decide_eq_true_eq, ge_iff_le,
    UInt32.le_iff_toNat_le] at digit
  simp only [Char.toNat] at range ⊢
  omega

/-- Blanks, line breaks and the slash have other codes than letters and digits. -/
theorem solid_of_code {c : Char} (rest : List Char) (low : 48 ≤ c.toNat) (high : c.toNat ≤ 122) :
    Solid (c :: rest) := by
  have other (d : Char) (less : d.toNat < 48) : c ≠ d := by
    rintro rfl
    omega
  refine solid_cons rest ?_ ?_ (other _ (by decide))
  · simp [isLineBreak, other '\n' (by decide), other '\r' (by decide)]
    omega
  · simp [isScriptBlank]
    omega

theorem solid_letters {word : List Char} (rest : List Char) (letters : isLetters word = true) :
    Solid (word ++ rest) := by
  cases word with
  | nil => cases letters
  | cons c more =>
    simp only [isLetters, Bool.and_eq_true, List.all_cons] at letters
    obtain ⟨low, high⟩ := code_of_isAlpha letters.2.1
    exact solid_of_code _ (by omega) high

theorem isIdentifierPart_of_start {c : Char} (start : isIdentifierStart c = true) :
    isIdentifierPart c = true := by
  simp [isIdentifierPart, start]

/-- Letters are an identifier up to where no word goes on. -/
theorem identifier_letters {accepts : Char → Bool} {word follow : List Char}
    (ends : EndsWord follow) (letters : word.all Char.isAlpha = true)
    (more : ∀ c, isIdentifierStart c = true → accepts c = true)
    (fewer : ∀ c, accepts c = true → isIdentifierPart c = true) :
    identifier accepts (word ++ follow) = (word, false, follow) := by
  -- The first character has its own test, so the test is general in the induction.
  induction word generalizing accepts with
  | nil =>
    cases follow with
    | nil => rw [List.nil_append, identifier]
    | cons c rest =>
      obtain ⟨notPart, notEscape⟩ := ends c rfl
      have other : accepts c = false := by
        by_contra accepted
        rw [fewer c (by simpa using accepted)] at notPart
        cases notPart
      rw [List.nil_append, identifier]
      simp [notEscape, other]
  | cons c rest ih =>
    rw [List.all_cons, Bool.and_eq_true] at letters
    have plain : (c == '\\') = false := by
      rw [beq_eq_false_iff_ne]
      rintro rfl
      exact absurd letters.1 (by decide)
    have accepted : accepts c = true := more c (by simp [isIdentifierStart, letters.1])
    have others := ih letters.2 (fun _ => isIdentifierPart_of_start) (fun _ h => h)
    rw [List.cons_append, identifier]
    simp [plain, accepted, others]

theorem scan_letters {word follow : List Char} (letters : isLetters word = true)
    (ends : EndsWord follow) :
    scan (word ++ follow) = (.word (String.ofList word) false, follow) := by
  cases word with
  | nil => cases letters
  | cons c rest =>
    obtain ⟨-, letters⟩ := Bool.and_eq_true_iff.mp letters
    have word : identifier isIdentifierStart (c :: rest ++ follow) = (c :: rest, false, follow) :=
      identifier_letters ends letters (fun _ h => h) (fun _ => isIdentifierPart_of_start)
    have first : c.isAlpha = true := (Bool.and_eq_true_iff.mp letters).1
    rw [List.cons_append] at word ⊢
    rw [scan]
    simp [isIdentifierStart, first, word]

end Lexer

namespace Grammar

open TypedProps.Lexer
open TypedProps.Grammar.Parser

variable {α β : Type} {c d e : Cursor} {text follow : List Char}

/-! ### Cursors in front of a text -/

namespace Cursor

/-- A cursor stands in front of a text. -/
structure Stands (c : Cursor) (text : List Char) : Prop where
  front : c.front = text
  scanned : scan text = (c.token.kind, c.rest)
  stop : c.token.stop = c.token.start + (text.length - c.rest.length)

theorem Stands.size (stands : c.Stands text) : c.size = text.length := by
  rw [Cursor.size, stands.front]

theorem Stands.kind (stands : c.Stands text) : c.token.kind = (scan text).1 := by
  rw [stands.scanned]

/-- A cursor that stands in front of a token steps behind it. -/
theorem Stands.next {kind : Token.Kind} (text : List Char) (stands : c.Stands (text ++ follow))
    (scans : scan (text ++ follow) = (kind, follow)) :
    c.next = resume kind.ownsTrailing (c.token.start + text.length) follow := by
  obtain ⟨isKind, isRest⟩ := Prod.mk.inj (stands.scanned.symm.trans scans)
  rw [Cursor.next, stands.stop, isKind, isRest, List.length_append, Nat.add_sub_cancel]

theorem resume_of_solid (owns : Bool) (offset : Nat) (solid : Solid text) :
    resume owns offset text = ⟨⟨(scan text).1, offset,
      offset + (text.length - (scan text).2.length), false, []⟩, text, (scan text).2, offset⟩ := by
  unfold resume read
  rw [solid]
  simp

theorem start_resume (owns : Bool) (offset : Nat) (solid : Solid text) :
    (resume owns offset text).token.start = offset := by
  rw [resume_of_solid owns offset solid]

theorem resume_space (owns : Bool) (offset : Nat) (solid : Solid text) :
    resume owns offset (' ' :: text) = ⟨⟨(scan text).1, offset + 1,
      offset + 1 + (text.length - (scan text).2.length), false, []⟩, text, (scan text).2,
      offset⟩ := by
  unfold resume read
  rw [gap_space, solid]
  simp

theorem stands_resume (owns : Bool) (offset : Nat) (solid : Solid text) :
    (resume owns offset text).Stands text := by
  rw [resume_of_solid owns offset solid]
  exact ⟨rfl, rfl, rfl⟩

theorem stands_resume_space (owns : Bool) (offset : Nat) (solid : Solid text) :
    (resume owns offset (' ' :: text)).Stands text := by
  rw [resume_space owns offset solid]
  exact ⟨rfl, rfl, rfl⟩

/-- In front of a mark of one character. -/
theorem resume_mark {m : Mark} {char : Char} {rest : List Char} (solid : Solid (char :: rest))
    (scans : scan (char :: rest) = (.mark m, rest)) (owns : Bool) (offset : Nat) :
    (resume owns offset (char :: rest)).token.kind = .mark m ∧
      (resume owns offset (char :: rest)).next
        = resume (Token.Kind.mark m).ownsTrailing (offset + 1) rest := by
  have stands := stands_resume owns offset solid
  refine ⟨by rw [stands.kind, scans], ?_⟩
  rw [stands.next [char] scans, start_resume owns offset solid]
  rfl

theorem start_resume_space (owns : Bool) (offset : Nat) (solid : Solid text) :
    (resume owns offset (' ' :: text)).token.start = offset + 1 := by
  rw [resume_space owns offset solid]

/-- In front of a bar between spaces. -/
theorem resume_bar (owns : Bool) (offset : Nat) (rest : List Char) :
    (resume owns offset (' ' :: '|' :: ' ' :: rest)).token.kind = .mark .bar ∧
      (resume owns offset (' ' :: '|' :: ' ' :: rest)).next
        = resume (Token.Kind.mark .bar).ownsTrailing (offset + 2) (' ' :: rest) := by
  have solid : Solid ('|' :: ' ' :: rest) := solid_cons _ rfl rfl (by decide)
  have stands := stands_resume_space owns offset solid
  refine ⟨by rw [stands.kind, scan_bar], ?_⟩
  rw [stands.next ['|'] (scan_bar rest), start_resume_space owns offset solid]
  rfl

end Cursor

/-! ### Running parsers -/

namespace Parser

theorem bind_of_ok {x : Parser α} {f : α → Parser β} {a : α} (reads : x c = .ok (a, d)) :
    (x >>= f) c = f a d := by
  show (x c >>= fun (a, d) => f a d) = _
  rw [reads]
  rfl

theorem here_bind (f : Cursor → Parser α) : (here >>= f) c = f c c := rfl

theorem skip_bind (f : Unit → Parser α) : (skip >>= f) c = f () c.next := rfl

theorem map_of_ok {x : Parser α} {f : α → β} {a : α} (reads : x c = .ok (a, d)) :
    (f <$> x) c = .ok (f a, d) := by
  show (x c >>= fun (a, d) => pure (f a, d)) = _
  rw [reads]
  rfl

theorem eat_of_isMark {m : Mark} (isMark : c.isMark m = true) : eat m c = .ok (true, c.next) := by
  unfold eat
  rw [here_bind, if_pos isMark]
  rfl

theorem eat_of_not_isMark {m : Mark} (other : c.isMark m = false) : eat m c = .ok (false, c) := by
  unfold eat
  rw [here_bind, if_neg (by simp [other])]
  rfl

theorem expect_of_isMark {m : Mark} (isMark : c.isMark m = true) :
    expect m c = .ok ((), c.next) := by
  unfold expect
  rw [here_bind, if_pos isMark]
  rfl

/-- Looking ahead does not move and does not fail. -/
theorem exists_lookAhead (p : Parser α) (c : Cursor) : ∃ a, lookAhead p c = .ok (a, c) := by
  unfold lookAhead
  split <;> exact ⟨_, rfl⟩

/-- From a cursor on, a parser answers with values, each time further on, and then with nothing. -/
inductive Rounds (p : Parser (Option α)) : Cursor → List α → Cursor → Prop
  | stop {c d : Cursor} (nothing : p c = .ok (none, d)) : Rounds p c [] d
  | more {c d e : Cursor} {a : α} {as : List α} (reads : p c = .ok (some a, d))
      (further : d.size < c.size) (rest : Rounds p d as e) : Rounds p c (a :: as) e

theorem loop_of_rounds {p : Parser (Option α)} {step : List α → Parser (List α × Bool)}
    (goes : ∀ acc c d a, p c = .ok (some a, d) → step acc c = .ok ((a :: acc, true), d))
    (stops : ∀ acc c d, p c = .ok (none, d) → step acc c = .ok ((acc, false), d)) {as : List α}
    (rounds : Rounds p c as d) (acc : List α) :
    loop step acc c = .ok (as.reverse ++ acc, d) := by
  induction rounds generalizing acc with
  | stop nothing =>
    rw [loop, stops _ _ _ nothing]
    rfl
  | more reads further rest ih =>
    rw [loop, goes _ _ _ _ reads]
    simp [further, ih]

theorem many_of_rounds {p : Parser (Option α)} {as : List α} (rounds : Rounds p c as d) :
    many p c = .ok (as, d) := by
  unfold many
  rw [bind_of_ok (loop_of_rounds (fun acc c d a reads => ?_) (fun acc c d reads => ?_) rounds [])]
  · rw [List.append_nil, List.reverse_reverse]
    rfl
  · rw [bind_of_ok reads]
    rfl
  · rw [bind_of_ok reads]
    rfl

/-- A list of one element ends at the mark behind it. -/
theorem commaList_of_single {p : Parser α} {a : α} {close : Mark}
    (notClosed : c.isMark close = false) (reads : p c = .ok (a, d)) (further : d.size < c.size)
    (closes : d.isMark close = true) : commaList p close c = .ok ([a], d.next) := by
  have elements : commaElements p close c = .ok ([a], d) := by
    refine many_of_rounds (.more (d := d) ?_ further (.stop ?_))
    · rw [here_bind, notClosed, if_neg Bool.false_ne_true,
        bind_of_ok reads, here_bind, closes]
      rfl
    · rw [here_bind, closes]
      rfl
  unfold commaList
  rw [bind_of_ok elements, bind_of_ok (expect_of_isMark closes)]
  rfl

/-- `Reads p text follow good`: with `follow` behind it, a parser reads just the text, and its
answer is good. -/
def Reads (p : Parser α) (text follow : List Char) (good : α → Prop) : Prop :=
  ∀ c : Cursor, c.Stands (text ++ follow) →
    ∃ a owns, good a ∧ p c = .ok (a, .resume owns (c.token.start + text.length) follow)

theorem exists_excerptFrom (c d : Cursor) : ∃ loc, excerptFrom c d = .ok (loc, d) := ⟨_, rfl⟩

/-- What has been read of a text is that text. -/
theorem excerptFrom_resume (stands : c.Stands (text ++ follow)) (owns : Bool) :
    excerptFrom c (.resume owns (c.token.start + text.length) follow)
      = .ok (⟨⟨c.token.start, c.token.start + text.length⟩, String.ofList text⟩,
        .resume owns (c.token.start + text.length) follow) := by
  show Except.ok (Excerpt.mk ⟨c.token.start, c.token.start + text.length⟩
    (String.ofList (c.front.take (c.token.start + text.length - c.token.start))), _) = _
  rw [stands.front, Nat.add_sub_cancel_left, List.take_left]

end Parser

end Grammar

end TypedProps
