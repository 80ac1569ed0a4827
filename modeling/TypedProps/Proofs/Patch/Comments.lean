import Mathlib.Data.List.DropRight
import Mathlib.Data.List.Infix
import TypedProps.Doc
import TypedProps.Patch
import TypedProps.Token.Lexer

/-!
# `TypedProps.Proofs.Patch.Comments`: documentation in comments

A patch can carry the documentation of a prop in a comment in front of its definition. Three
transformations of text meet there: lines are cleaned when they are read from a comment, escaped and
decorated when they are written into one, and cleaned again when the patch is read.

* `after_of_block`, `gap_block`: whatever the lines are, the comment ends where it is closed, and a
  lexer that comes to it passes over it as one comment.
* `clean_body`: clean lines that are written and read again come back, each as it has been escaped.
* `docs_survive`: so documentation cannot break a patch, and does not wear off.
-/

set_option autoImplicit false

namespace TypedProps

/-! ### Trimming and lines -/

namespace Text

variable {p : Char → Bool}

/-- Trimming the end of a text drops its last characters. -/
theorem trimEnd_eq (p : Char → Bool) (cs : List Char) : trimEnd p cs = cs.rdropWhile p := by
  induction cs with
  | nil => rfl
  | cons c cs ih =>
    rw [List.rdropWhile, List.reverse_cons, List.dropWhile_append, trimEnd, ih, List.rdropWhile]
    cases cs.reverse.dropWhile p with
    | nil => cases h : p c <;> simp [h]
    | cons d ds =>
      have split : (d :: ds).reverse = ds.reverse ++ [d] := List.reverse_cons
      cases left : (d :: ds).reverse with
      | nil => rw [split] at left; simp at left
      | cons e es => simp [← left]

/-- Trimming keeps a stretch of a text. -/
theorem isInfix_trim (p : Char → Bool) (cs : List Char) : trim p cs <:+: cs := by
  unfold trim trimStart
  rw [trimEnd_eq]
  exact (List.rdropWhile_prefix p _).isInfix.trans (List.dropWhile_suffix p).isInfix

/-- What has been trimmed begins and ends with nothing to trim. -/
theorem trimStart_trim (p : Char → Bool) (cs : List Char) :
    trimStart p (trim p cs) = trim p cs := by
  unfold trim trimStart
  rw [trimEnd_eq, List.dropWhile_eq_self_iff]
  intro nonempty first
  rw [(List.rdropWhile_prefix p _).getElem nonempty] at first
  exact List.dropWhile_get_zero_not p cs _ first

theorem trimEnd_trim (p : Char → Bool) (cs : List Char) : trimEnd p (trim p cs) = trim p cs := by
  unfold trim
  rw [trimEnd_eq, trimEnd_eq, List.rdropWhile_idempotent]

/-- In front of text that is trimmed at its end, nothing is trimmed at the end. -/
theorem trimEnd_append {front cs : List Char} (nonempty : cs ≠ []) (trimmed : trimEnd p cs = cs) :
    trimEnd p (front ++ cs) = front ++ cs := by
  induction front with
  | nil => exact trimmed
  | cons c front ih =>
    rw [List.cons_append, trimEnd, ih]
    cases behind : front ++ cs with
    | nil => exact absurd (List.append_eq_nil_iff.mp behind).2 nonempty
    | cons d ds => rfl

/-- A line and the lines behind it. -/
theorem lines_append {line : List Char} (whole : '\n' ∉ line) (rest : List Char) :
    lines (line ++ '\n' :: rest) = line :: lines rest := by
  induction line with
  | nil => rfl
  | cons c line ih =>
    obtain ⟨other, whole⟩ := not_or.mp (mt List.mem_cons.mpr whole)
    rw [List.cons_append, lines, if_neg (by simpa using Ne.symm other), ih whole]

/-- There is no end of a line in a line. -/
theorem newline_notMem_of_mem_lines {cs line : List Char} (mem : line ∈ lines cs) :
    '\n' ∉ line := by
  induction cs generalizing line with
  | nil => cases mem
  | cons c cs ih =>
    rw [lines] at mem
    split at mem
    · obtain rfl | mem := List.mem_cons.mp mem
      · exact List.not_mem_nil
      · exact ih mem
    · rename_i other
      have other : '\n' ≠ c := fun same => other (by simp [← same])
      -- The character goes to the front of the first line behind it, which there may not be yet.
      cases behind : lines cs with
      | nil =>
        rw [behind] at mem
        obtain rfl := List.mem_singleton.mp mem
        simpa using other
      | cons first more =>
        rw [behind] at mem ih
        obtain rfl | mem := List.mem_cons.mp mem
        · exact fun inside => (List.mem_cons.mp inside).elim other (ih List.mem_cons_self)
        · exact ih (List.mem_cons_of_mem _ mem)

/-- The first line is what the text begins with, every line is a stretch of it. -/
theorem infix_of_mem_lines {cs line : List Char} (mem : line ∈ lines cs) : line <:+: cs := by
  -- The first line goes on at its front when a character is put before the text, so the induction
  -- also needs that it is a beginning and not only a stretch of it.
  suffices both : (∀ line ∈ (lines cs).head?, line <+: cs) ∧ ∀ line ∈ lines cs, line <:+: cs from
    both.2 line mem
  clear mem line
  induction cs with
  | nil => exact ⟨by simp [lines], by simp [lines]⟩
  | cons c cs ih =>
    obtain ⟨first, each⟩ := ih
    rw [lines]
    split
    · refine ⟨fun line mem => ?_, fun line mem => ?_⟩
      · obtain rfl := Option.some.inj mem
        exact List.nil_prefix
      · obtain rfl | mem := List.mem_cons.mp mem
        · exact List.nil_infix
        · exact (each line mem).trans (List.suffix_cons c cs).isInfix
    · cases behind : lines cs with
      | nil =>
        refine ⟨fun line mem => ?_, fun line mem => ?_⟩
        · obtain rfl := Option.some.inj mem
          exact ⟨cs, rfl⟩
        · obtain rfl := List.mem_singleton.mp mem
          exact ⟨[], cs, rfl⟩
      | cons start more =>
        rw [behind] at first each
        have front : c :: start <+: c :: cs := List.cons_prefix_cons.mpr ⟨rfl, first start rfl⟩
        refine ⟨fun line mem => ?_, fun line mem => ?_⟩
        · obtain rfl := Option.some.inj mem
          exact front
        · obtain rfl | mem := List.mem_cons.mp mem
          · exact front.isInfix
          · exact (each line (List.mem_cons_of_mem _ mem)).trans (List.suffix_cons c cs).isInfix

end Text

/-! ### End marks -/

namespace Doc

open TypedProps.Text

/-- The mark that ends a comment. -/
def endMark : List Char := ['*', '/']

/-- The text between the outer marks of the comment that holds some lines. -/
def body (docs : List String) : String := String.ofList (bodyChars (docs.map String.toList))

/-- A comment is its body between its marks. -/
theorem toList_block (docs : List String) :
    (block docs).toList = '/' :: '*' :: ((body docs).toList ++ '*' :: '/' :: ['\n']) := by
  simp [block, body]

variable {x y cs : List Char}

/-- Where a slash does not follow, no end mark lies across the seam of two texts. -/
theorem endMark_infix_append {c : Char} (other : c ≠ '/') :
    endMark <:+: x ++ c :: y ↔ endMark <:+: x ∨ endMark <:+: c :: y := by
  induction x with
  | nil => simp [endMark]
  | cons d x ih =>
    have across : endMark <+: d :: (x ++ c :: y) ↔ endMark <+: d :: x := by
      cases x <;> simp [endMark, List.cons_prefix_cons, Ne.symm other]
    rw [List.cons_append, List.infix_cons_iff, List.infix_cons_iff, across, ih, or_assoc]

/-- In front of an end mark, text without one has the next end mark right behind it. -/
theorem eq_of_append_endMark {after before : List Char} (free : ¬ endMark <:+: x)
    (split : x ++ '*' :: '/' :: y = before ++ '*' :: '/' :: after) :
    after = y ∨ ∃ z, y = z ++ '*' :: '/' :: after := by
  obtain ⟨z, rfl, behind⟩ | ⟨z, rfl, behind⟩ := List.append_eq_append_iff.mp split
  · obtain _ | ⟨c, _ | ⟨d, z⟩⟩ := z
    · exact .inl (by simpa using behind.symm)
    · simp at behind
    · exact .inr ⟨z, (List.cons.inj (List.cons.inj behind).2).2⟩
  · obtain _ | ⟨c, _ | ⟨d, z⟩⟩ := z
    · exact .inl (by simpa using behind)
    · simp at behind
    · -- The text itself would have an end mark where it is cut.
      obtain ⟨rfl, tail⟩ := List.cons.inj behind
      obtain ⟨rfl, -⟩ := List.cons.inj tail
      exact absurd ⟨before, z, by simp [endMark]⟩ free

/-- Escaping keeps what a text begins with. -/
theorem head?_escapeEnd (cs : List Char) : (escapeEnd cs).head? = cs.head? := by
  fun_cases escapeEnd cs <;> rfl

/-- There is no end mark in escaped text. -/
theorem endMark_not_infix_escapeEnd (cs : List Char) : ¬ endMark <:+: escapeEnd cs := by
  fun_induction escapeEnd cs with
  | case1 rest ih => simpa [endMark, List.infix_cons_iff, List.cons_prefix_cons] using ih
  | case2 c rest other ih =>
    rw [List.infix_cons_iff, not_or]
    refine ⟨fun front => ?_, ih⟩
    obtain ⟨rfl, slash⟩ := List.cons_prefix_cons.mp front
    have head : rest.head? = some '/' := by
      obtain ⟨tail, split⟩ := slash
      rw [← head?_escapeEnd, ← split]
      rfl
    obtain ⟨tail, rfl⟩ := List.head?_eq_some_iff.mp head
    exact other tail rfl rfl
  | case3 => simp [endMark]

/-- Text without an end mark is not changed by escaping. -/
theorem escapeEnd_eq_self (free : ¬ endMark <:+: cs) : escapeEnd cs = cs := by
  fun_induction escapeEnd cs with
  | case1 rest => exact absurd ⟨[], rest, rfl⟩ free
  | case2 c rest other ih =>
    rw [ih fun inside => free (inside.trans (List.suffix_cons c rest).isInfix)]
  | case3 => rfl

/-- The decorated lines of a comment, up to its end mark. -/
def decorated : List (List Char) → List Char
  | [] => [' ']
  | line :: rest => ' ' :: '*' :: ' ' :: (escapeEnd line ++ '\n' :: decorated rest)

/-- Between its outer marks, a comment has a star and the decorated lines. -/
theorem bodyChars_eq (docs : List (List Char)) :
    bodyChars docs = '*' :: '\n' :: decorated docs := by
  suffices behind :
      (docs.flatMap fun line => ' ' :: '*' :: ' ' :: (escapeEnd line ++ ['\n'])) ++ [' ']
        = decorated docs by
    rw [bodyChars, ← behind]
    rfl
  induction docs with
  | nil => rfl
  | cons line rest ih => simp [decorated, ← ih]

theorem toList_body (docs : List String) :
    (body docs).toList = '*' :: '\n' :: decorated (docs.map String.toList) := by
  rw [body, String.toList_ofList, bodyChars_eq]

/-- There is no end mark between the outer marks of a comment. -/
theorem endMark_not_infix_body (docs : List String) : ¬ endMark <:+: (body docs).toList := by
  suffices free : ¬ endMark <:+: decorated (docs.map String.toList) by
    simpa [toList_body, endMark, List.infix_cons_iff, List.cons_prefix_cons] using free
  induction docs.map String.toList with
  | nil => decide
  | cons line rest ih =>
    have seam : endMark <:+: escapeEnd line ++ '\n' :: decorated rest ↔
        endMark <:+: escapeEnd line ∨ endMark <:+: '\n' :: decorated rest :=
      endMark_infix_append (by decide)
    have written := endMark_not_infix_escapeEnd line
    simp only [endMark] at seam written ih ⊢
    simp [decorated, List.infix_cons_iff, List.cons_prefix_cons, seam, written, ih]

/-- However a comment is cut at an end mark, the cut is where the comment is closed. -/
theorem after_of_block {docs : List String} {before after : List Char}
    (cut : (block docs).toList = before ++ '*' :: '/' :: after) : after = ['\n'] := by
  have free : ¬ endMark <:+: '/' :: '*' :: (body docs).toList := by
    have inside := endMark_not_infix_body docs
    rw [toList_body] at inside ⊢
    simpa [endMark, List.infix_cons_iff, List.cons_prefix_cons] using inside
  rw [toList_block, ← List.cons_append, ← List.cons_append] at cut
  obtain closed | ⟨z, behind⟩ := eq_of_append_endMark free cut
  · exact closed
  · match z, behind with
    | [], behind => simp at behind
    | _ :: z, behind => simp at behind

/-! ### Reading a comment -/

end Doc

namespace Lexer

open TypedProps.Text

/-- A lexer inside of a comment passes over all that has no end mark, up to the next one. -/
theorem gap_blockComment {cs : List Char} (free : ¬ Doc.endMark <:+: cs)
    (owns startsLine seen : Bool) (found : List String) (inside rest : List Char) :
    gap owns (.blockComment inside startsLine) seen found (cs ++ '*' :: '/' :: rest)
      = gap owns .blank (seen || cs.any isLineBreak)
          (keepDoc owns startsLine (cs.reverse ++ inside) rest found) rest := by
  induction cs generalizing inside seen with
  | nil => simp [gap]
  | cons c cs ih =>
    have behind : ¬ Doc.endMark <:+: cs :=
      fun more => free (more.trans (List.suffix_cons c cs).isInfix)
    have open_ : ∀ tail, c = '*' → cs ++ '*' :: '/' :: rest = '/' :: tail → False := by
      rintro tail rfl split
      cases cs with
      | nil => simp at split
      | cons d cs =>
        obtain ⟨rfl, -⟩ := List.cons.inj split
        exact free ⟨[], cs, rfl⟩
    rw [List.cons_append, gap, ih behind]
    · simp [Bool.or_assoc]
    · exact open_

end Lexer

namespace Doc

/-- A lexer passes over a comment as one comment, and keeps it for the token that follows. -/
theorem gap_block (docs : List String) (owns seen : Bool) (found : List String) (rest : List Char) :
    Lexer.gap owns .blank seen found ((block docs).toList ++ rest)
      = Lexer.gap owns .blank true (if !seen && owns then found else body docs :: found) rest := by
  have comment := Lexer.gap_blockComment (endMark_not_infix_body docs) owns seen seen found []
    ('\n' :: rest)
  have kept : Lexer.keepDoc owns seen ((body docs).toList.reverse ++ []) ('\n' :: rest) found
      = if !seen && owns then found else body docs :: found := by
    have text : body docs = String.ofList ('*' :: '\n' :: decorated (docs.map String.toList)) := by
      rw [← toList_body, String.ofList_toList]
    rw [List.append_nil, Lexer.keepDoc, List.reverse_reverse, toList_body, text]
    simp
  rw [kept] at comment
  rw [toList_block]
  simpa [Lexer.gap, Text.isLineBreak] using comment

/-! ### Cleaning a comment -/

open TypedProps.Text

/-- A line as cleaning leaves it. -/
structure IsCleanLine (line : List Char) : Prop where
  nonempty : line ≠ []
  oneLine : '\n' ∉ line
  startsPlain : trimStart isWhiteSpace line = line
  endsPlain : trimEnd isWhiteSpace line = line

/-- A line is a stretch of the comment from which it is cleaned. -/
theorem isCleanLine_of_mem_cleanChars {cs line : List Char} (mem : line ∈ cleanChars cs) :
    IsCleanLine line ∧ line <:+: cs := by
  obtain ⟨mem, nonempty⟩ := List.mem_filter.mp mem
  obtain ⟨whole, isLine, rfl⟩ := List.mem_map.mp mem
  have stretch : cleanLine whole <:+: whole :=
    (isInfix_trim _ _).trans ((List.dropWhile_suffix _).isInfix.trans (isInfix_trim _ _))
  refine ⟨⟨by simpa using nonempty, fun inside => ?_, trimStart_trim _ _, trimEnd_trim _ _⟩, ?_⟩
  · exact newline_notMem_of_mem_lines isLine (stretch.subset inside)
  · exact stretch.trans ((infix_of_mem_lines isLine).trans (List.dropWhile_suffix _).isInfix)

/-- Cleaning takes the decoration off a line again, and no more. -/
theorem cleanLine_decorated {line : List Char} (plain : IsCleanLine line) :
    cleanLine (' ' :: '*' :: ' ' :: line) = line := by
  have spaced (front : List Char) : trimEnd isWhiteSpace (front ++ line) = front ++ line :=
    trimEnd_append plain.nonempty plain.endsPlain
  have outer : trim isWhiteSpace (' ' :: '*' :: ' ' :: line) = '*' :: ' ' :: line :=
    spaced ['*', ' ']
  have inner : trim isWhiteSpace (' ' :: line) = line := by
    show trimEnd isWhiteSpace (trimStart isWhiteSpace line) = line
    rw [plain.startsPlain, plain.endsPlain]
  rw [cleanLine, outer]
  exact inner

/-- Clean lines without end marks come back from the comment that holds them. -/
theorem cleanChars_bodyChars {docs : List (List Char)}
    (plain : ∀ line ∈ docs, IsCleanLine line ∧ ¬ endMark <:+: line) :
    cleanChars (bodyChars docs) = docs := by
  suffices behind : ((lines (decorated docs)).map cleanLine).filter (!·.isEmpty) = docs by
    rw [bodyChars_eq]
    exact behind
  induction docs with
  | nil => rfl
  | cons line rest ih =>
    obtain ⟨⟨clean, free⟩, plain⟩ := List.forall_mem_cons.mp plain
    have whole : '\n' ∉ ' ' :: '*' :: ' ' :: line := by simpa using clean.oneLine
    have first : lines (decorated (line :: rest))
        = (' ' :: '*' :: ' ' :: line) :: lines (decorated rest) := by
      rw [decorated, escapeEnd_eq_self free]
      exact lines_append whole _
    rw [first, List.map_cons, cleanLine_decorated clean, List.filter_cons_of_pos, ih plain]
    simpa using clean.nonempty

/-- What is cleaned from a comment is cleaned from the comment that is written for it. -/
theorem clean_body_clean {text : String} (free : ¬ endMark <:+: text.toList) :
    clean (body (clean text)) = clean text := by
  have plain : ∀ line ∈ cleanChars text.toList, IsCleanLine line ∧ ¬ endMark <:+: line := by
    intro line mem
    obtain ⟨clean, stretch⟩ := isCleanLine_of_mem_cleanChars mem
    exact ⟨clean, fun inside => free (inside.trans stretch)⟩
  rw [clean, body, String.toList_ofList, clean, List.map_map]
  have same : (cleanChars text.toList).map (String.toList ∘ String.ofList)
      = cleanChars text.toList := by
    simp [Function.comp_def]
  rw [same, cleanChars_bodyChars plain]

end Doc

/-! ### Comments in a patch -/

namespace Patch

/-- A definition is a call behind its comment. -/
theorem exists_text_defineProp (frameworkModule name prop : String) (record : Record) :
    ∃ tail, ∀ comment, Step.text frameworkModule name (.defineProp comment prop record)
      = (if comment.isEmpty then "" else Doc.block comment)
        ++ ("Object.defineProperty(" ++ tail) := by
  refine ⟨name ++ (".props, " ++ (Text.quote prop ++ (", \x7b\n" ++
    (recordText frameworkModule record ++ "\x7d);\n")))), fun comment => ?_⟩
  unfold Step.text
  simp only [String.append_assoc]

/-- With documentation as comments, the definition of a documented prop stands behind the comment
that holds the lines. -/
theorem text_stepOf_asComment {options : Options} {prop : Property}
    (mode : options.docMode = .asComment) (documented : prop.doc ≠ [])
    (frameworkModule name : String) :
    Step.text frameworkModule name (stepOf options prop) = Doc.block prop.doc ++
      Step.text frameworkModule name (.defineProp [] prop.name (recordOf options prop)) := by
  have commented : (if options.docMode == .asComment then prop.doc else []) = prop.doc :=
    if_pos (by rw [mode]; rfl)
  obtain ⟨tail, call⟩ := exists_text_defineProp frameworkModule name prop.name
    (recordOf options prop)
  rw [stepOf, commented, call, call, if_neg (by simpa using documented), List.isEmpty_nil,
    if_pos rfl, String.empty_append]

/-- A definition without a comment begins with a word, so no gap is in front of it. -/
theorem gap_text_defineProp (frameworkModule name prop : String) (record : Record) (owns : Bool)
    (found : List String) :
    let statement := (Step.text frameworkModule name (.defineProp [] prop record)).toList
    Lexer.gap owns .blank true found statement = ⟨true, found, statement⟩ := by
  intro statement
  obtain ⟨tail, call⟩ := exists_text_defineProp frameworkModule name prop record
  have begins : "Object.defineProperty(".toList.head? = some 'O' := by decide +kernel
  obtain ⟨more, word⟩ := List.head?_eq_some_iff.mp begins
  have split : statement = 'O' :: (more ++ tail.toList) := by
    have bare := call []
    rw [List.isEmpty_nil, if_pos rfl, String.empty_append] at bare
    rw [← List.cons_append, ← word, ← String.toList_append, ← bare]
  rw [split, Lexer.gap] <;> simp [Text.isLineBreak, Text.isScriptBlank]

/-- The comment in front of a definition holds an end mark only where it is closed, whatever the
lines are. So a lexer passes over it as one comment and comes to the definition. What has been
cleaned from a comment of a source and is written into a patch is cleaned from there again as it
was. -/
theorem docs_survive :
    (∀ (docs : List String) (before after : List Char),
      (Doc.block docs).toList = before ++ '*' :: '/' :: after → after = ['\n']) ∧
    (∀ (docs : List String) (owns seen : Bool) (found : List String) (rest : List Char),
      Lexer.gap owns .blank seen found ((Doc.block docs).toList ++ rest)
        = Lexer.gap owns .blank true
          (if !seen && owns then found else Doc.body docs :: found) rest) ∧
    (∀ (options : Options) (prop : Property), options.docMode = .asComment → prop.doc ≠ [] →
      ∀ (frameworkModule name : String) (owns : Bool),
        Lexer.gap owns .blank true []
            (Step.text frameworkModule name (stepOf options prop)).toList
          = ⟨true, [Doc.body prop.doc], (Step.text frameworkModule name
              (.defineProp [] prop.name (recordOf options prop))).toList⟩) ∧
    (∀ text : String, ¬ Doc.endMark <:+: text.toList →
      Doc.clean (Doc.body (Doc.clean text)) = Doc.clean text) := by
  refine ⟨fun docs before after => Doc.after_of_block, Doc.gap_block, ?_, ?_⟩
  · intro options prop mode documented frameworkModule name owns
    rw [text_stepOf_asComment mode documented, String.toList_append, Doc.gap_block,
      gap_text_defineProp]
    rfl
  · exact fun text free => Doc.clean_body_clean free

/-- Lines that end comments, and a comment with stars and slashes in it. -/
theorem docs_survive_starred :
    let options := { Options.standard with docMode := .asComment }
    let prop : Property := ⟨"a", none, true, none, ["*/ alert() /*", "**/"]⟩
    let text := "*\n * ** Two * stars *\n\t/ and a slash\r\n **"
    (Doc.block prop.doc).toList
        = "/**\n * *\\/ alert() /*\n * **\\/\n ".toList ++ '*' :: '/' :: ['\n'] ∧
      options.docMode = .asComment ∧ prop.doc ≠ [] ∧
      (Lexer.gap true .blank true [] (Step.text "vue" "C" (stepOf options prop)).toList).docs
        = ["*\n * *\\/ alert() /*\n * **\\/\n "] ∧
      ¬ Doc.endMark <:+: text.toList ∧ Doc.clean text = ["** Two * stars *", "/ and a slash"] ∧
      Doc.clean (Doc.body (Doc.clean text)) = ["** Two * stars *", "/ and a slash"] := by
  intro options prop text
  have written : (Doc.block prop.doc).toList
      = "/**\n * *\\/ alert() /*\n * **\\/\n ".toList ++ '*' :: '/' :: ['\n'] := by decide +kernel
  have mode : options.docMode = .asComment := rfl
  have documented : prop.doc ≠ [] := by decide
  have free : ¬ Doc.endMark <:+: text.toList := by decide +kernel
  have cleaned : Doc.clean text = ["** Two * stars *", "/ and a slash"] := by decide +kernel
  obtain ⟨closes, -, passes, survives⟩ := docs_survive
  refine ⟨written, mode, documented, ?_, free, cleaned, ?_⟩
  · rw [passes options prop mode documented]
    decide +kernel
  · rw [survives text free, cleaned]

end Patch

end TypedProps
