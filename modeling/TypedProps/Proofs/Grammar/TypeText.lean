import TypedProps.Proofs.Grammar.Reading
import TypedProps.Proofs.Runtime.Literals
import TypedProps.Tag.Resolution

/-!
# `TypedProps.Proofs.Grammar.TypeText`: texts that are read as types

What a text is read as depends on what stands behind it. A word goes on with letters, a type with a
dot, a bracket or a joint. This module is about texts that are read as types wherever a type may
end behind them, so that they can be put together to longer ones.

* `PlainText`: where a part of a union may end behind it, the text is read as a type without
  operators. Keywords, names, and names with a type for an argument are such texts, and so are the
  texts of literal types (`LiteralText`).
* `TypeText`: where a type may end behind it, the text is read as a type. Plain texts with bars
  between them are (`TypeText.union`).
-/

set_option autoImplicit false

namespace TypedProps.Grammar

open TypedProps.Text
open TypedProps.Lexer
open TypedProps.Grammar.Parser

variable {c d e : Cursor} {text follow : List Char}

/-! ### What stands behind a type -/

/-- A type may end here: at the end of the text, or of a list of arguments. -/
def EndsType (follow : List Char) : Prop := follow = [] ∨ ∃ rest, follow = '>' :: rest

/-- A part of a union may end here: where a type may end, or at a bar. -/
def EndsPart (follow : List Char) : Prop :=
  EndsType follow ∨ ∃ rest, follow = ' ' :: '|' :: ' ' :: rest

theorem solid_greater (rest : List Char) : Solid ('>' :: rest) :=
  solid_cons rest rfl rfl (by decide)

theorem solid_bar (rest : List Char) : Solid ('|' :: rest) := solid_cons rest rfl rfl (by decide)

theorem solid_less (rest : List Char) : Solid ('<' :: rest) := solid_cons rest rfl rfl (by decide)

theorem EndsType.solid (ends : EndsType follow) : Solid follow := by
  rcases ends with rfl | ⟨rest, rfl⟩
  · exact solid_nil
  · exact solid_greater rest

theorem EndsType.kind (ends : EndsType follow) (owns : Bool) (offset : Nat) :
    (Cursor.resume owns offset follow).token.kind = .endOfText ∨
      (Cursor.resume owns offset follow).token.kind = .mark .greater := by
  rw [Cursor.resume_of_solid owns offset ends.solid]
  rcases ends with rfl | ⟨rest, rfl⟩
  · exact .inl rfl
  · exact .inr (congrArg Prod.fst (scan_greater rest))

theorem EndsPart.kind (ends : EndsPart follow) (owns : Bool) (offset : Nat) :
    (Cursor.resume owns offset follow).token.kind = .endOfText ∨
      (Cursor.resume owns offset follow).token.kind = .mark .greater ∨
      (Cursor.resume owns offset follow).token.kind = .mark .bar := by
  rcases ends with ends | ⟨rest, rfl⟩
  · exact (ends.kind owns offset).imp_right .inl
  · rw [Cursor.resume_space owns offset (solid_bar _)]
    exact .inr (.inr (congrArg Prod.fst (scan_bar rest)))

theorem EndsType.isMark_bar (ends : EndsType follow) (owns : Bool) (offset : Nat) :
    (Cursor.resume owns offset follow).isMark .bar = false := by
  rcases ends.kind owns offset with kind | kind <;> rw [Cursor.isMark, kind] <;> rfl

theorem EndsPart.isMark_eq_false (ends : EndsPart follow) (owns : Bool) (offset : Nat) {m : Mark}
    (other : m ≠ .greater ∧ m ≠ .bar) : (Cursor.resume owns offset follow).isMark m = false := by
  rcases ends.kind owns offset with kind | kind | kind <;> rw [Cursor.isMark, kind]
  · rfl
  · simpa using other.1.symm
  · simpa using other.2.symm

theorem EndsPart.isWord_eq_false (ends : EndsPart follow) (owns : Bool) (offset : Nat)
    (name : String) : (Cursor.resume owns offset follow).isWord name = false := by
  rcases ends.kind owns offset with kind | kind | kind <;> rw [Cursor.isWord, kind] <;> rfl

theorem EndsPart.endsWord (ends : EndsPart follow) : EndsWord follow := by
  rcases ends with (rfl | ⟨rest, rfl⟩) | ⟨rest, rfl⟩ <;> simp [EndsWord] <;> decide +kernel

theorem EndsPart.size_le (ends : EndsPart follow) (owns : Bool) (offset : Nat) :
    (Cursor.resume owns offset follow).size ≤ follow.length := by
  rcases ends with ends | ⟨rest, rfl⟩
  · rw [(Cursor.stands_resume owns offset ends.solid).size]
  · rw [(Cursor.stands_resume_space owns offset (solid_bar _)).size]
    simp

/-! ### Phrases inside of phrases -/

/-- The phrases inside of one that has `size` characters ahead. -/
def nested (markup : Bool) (size : Nat) : Phrases :=
  let inside {α : Type} (pick : Phrases → Parser α) : Parser α := fun c =>
    if c.size < size then pick (knot markup rules c.size) c else .error ⟨c.token.start⟩
  { markup
    type := fun conditional => inside (·.type conditional)
    pattern := inside (·.pattern)
    expression := fun allowIn => inside (·.expression allowIn)
    operand := inside (·.operand)
    element := inside (·.element)
    statement := fun exports => inside (·.statement exports) }

theorem knot_eq (markup : Bool) (size : Nat) :
    knot markup rules size = rules (nested markup size) := by
  rw [knot]
  rfl

/-- A type inside of a phrase is read as any other type. -/
theorem type_nested {markup conditional : Bool} {size : Nat} (further : c.size < size) :
    (nested markup size).type conditional c = type (nested markup c.size) conditional c := by
  show (if c.size < size then (knot markup rules c.size).type conditional c else _) = _
  rw [if_pos further, knot_eq]
  rfl

/-! ### Layers of a type -/

/-- Words that are operators in front of a type, or begin the type of a constructor. -/
def operatorWords : List String := ["keyof", "unique", "readonly", "infer", "new", "abstract"]

/-- Marks that join types, or enclose the parameters of a function type. -/
def jointMarks : List Mark := [.less, .greater, .parenOpen, .bar, .ampersand]

/-- Whether a type that begins with a token has neither an operator nor a joint in front. -/
def beginsPlain : Token.Kind → Bool
  | .word name escaped => escaped || !operatorWords.contains name
  | .mark m => !jointMarks.contains m
  | .endOfText | .malformed => false
  | _ => true

section Layers

variable {g : Phrases} {conditional : Bool} {read : Ty}

theorem isWord_eq_false_of_beginsPlain (begins : beginsPlain c.token.kind = true) {name : String}
    (operator : name ∈ operatorWords) : c.isWord name = false := by
  by_contra isWord
  have kind : c.token.kind = .word name false := by simpa [Cursor.isWord] using isWord
  rw [kind] at begins
  simp only [beginsPlain, Bool.false_or, Bool.not_eq_true', List.contains_eq_mem,
    decide_eq_false_iff_not] at begins
  exact begins operator

theorem isMark_eq_false_of_beginsPlain (begins : beginsPlain c.token.kind = true) {m : Mark}
    (joint : m ∈ jointMarks) : c.isMark m = false := by
  by_contra isMark
  have kind : c.token.kind = .mark m := by simpa [Cursor.isMark] using isMark
  rw [kind] at begins
  simp only [beginsPlain, Bool.not_eq_true', List.contains_eq_mem,
    decide_eq_false_iff_not] at begins
  exact begins joint

theorem postfixType_of_plainType (reads : plainType g c = .ok (read, d))
    (noBracket : d.isMark .bracketOpen = false) : postfixType g c = .ok (read, d) := by
  unfold postfixType
  rw [here_bind, bind_of_ok reads, loop, here_bind, noBracket]
  rfl

theorem prefixedType_of_plainType (begins : beginsPlain c.token.kind = true)
    (reads : plainType g c = .ok (read, d)) (noBracket : d.isMark .bracketOpen = false) :
    prefixedType g conditional c = .ok (read, d) := by
  have noOperator : ["keyof", "unique", "readonly"].any c.isWord = false := by
    rw [List.any_eq_false]
    intro name operator
    have isOperator : ∀ w ∈ ["keyof", "unique", "readonly"], w ∈ operatorWords := by decide
    rw [isWord_eq_false_of_beginsPlain begins (isOperator name operator)]
    exact Bool.false_ne_true
  unfold prefixedType
  rw [bind_of_ok (many_of_rounds (.stop (d := c) ?_)), here_bind]
  · have noInfer : c.isWord "infer" = false := isWord_eq_false_of_beginsPlain begins (by decide)
    rw [noInfer, if_neg Bool.false_ne_true, bind_of_ok (postfixType_of_plainType reads noBracket)]
    rfl
  · rw [here_bind, noOperator]
    rfl

theorem joinedType_of_part {joint : Mark} {make : Excerpt → List Ty → Ty} {part : Parser Ty}
    (noJoint : c.isMark joint = false) (reads : part c = .ok (read, d))
    (noMore : d.isMark joint = false) : joinedType joint make part c = .ok (read, d) := by
  unfold joinedType
  rw [here_bind, bind_of_ok (eat_of_not_isMark noJoint),
    bind_of_ok reads, here_bind, noMore]
  rfl

theorem joinedType_of_rounds {joint : Mark} {make : Excerpt → List Ty → Ty} {part : Parser Ty}
    {types : List Ty} (noJoint : c.isMark joint = false) (reads : part c = .ok (read, d))
    (isJoint : d.isMark joint = true)
    (rounds : Rounds (do if ← eat joint then some <$> part else pure none) d types e) :
    ∃ loc, joinedType joint make part c = .ok (make loc (read :: types), e) := by
  obtain ⟨loc, extent⟩ := exists_excerptFrom c e
  refine ⟨loc, ?_⟩
  unfold joinedType
  rw [here_bind, bind_of_ok (eat_of_not_isMark noJoint),
    bind_of_ok reads, here_bind, isJoint, Bool.not_true,
    if_neg Bool.false_ne_true]
  rw [bind_of_ok (many_of_rounds rounds), bind_of_ok extent]
  rfl

/-- Reads a part of a union. -/
def unionPart (g : Phrases) (conditional : Bool) : Parser Ty :=
  joinedType .ampersand .intersection (prefixedType g conditional)

theorem unionPart_of_plainType (begins : beginsPlain c.token.kind = true)
    (reads : plainType g c = .ok (read, d)) (noBracket : d.isMark .bracketOpen = false)
    (noMore : d.isMark .ampersand = false) : unionPart g conditional c = .ok (read, d) :=
  joinedType_of_part (isMark_eq_false_of_beginsPlain begins (by decide))
    (prefixedType_of_plainType begins reads noBracket) noMore

theorem exists_startsFunctionType (g : Phrases) (c : Cursor) :
    ∃ b, startsFunctionType g c = .ok (b, c) := by
  unfold startsFunctionType
  obtain ⟨a, looked⟩ := exists_lookAhead _ c
  rw [bind_of_ok looked]
  exact ⟨_, rfl⟩

theorem type_of_joinedType (begins : beginsPlain c.token.kind = true)
    (reads : joinedType .bar .union (unionPart g conditional) c = .ok (read, d))
    (noCondition : d.isWord "extends" = false) : type g conditional c = .ok (read, d) := by
  have uncond : unconditionalType g conditional c = .ok (read, d) := by
    unfold unconditionalType
    rw [here_bind]
    have noMark (m : Mark) (joint : m ∈ jointMarks) : c.isMark m = false :=
      isMark_eq_false_of_beginsPlain begins joint
    have noWord (name : String) (operator : name ∈ operatorWords) : c.isWord name = false :=
      isWord_eq_false_of_beginsPlain begins operator
    rw [noMark .less (by decide), noWord "new" (by decide), noWord "abstract" (by decide),
      Bool.false_and, Bool.or_self, Bool.or_self, if_neg Bool.false_ne_true]
    obtain ⟨b, starts⟩ := exists_startsFunctionType g c
    rw [bind_of_ok starts, noMark .parenOpen (by decide), Bool.false_and, if_neg Bool.false_ne_true]
    exact reads
  unfold type
  rw [here_bind, bind_of_ok uncond, here_bind, noCondition, if_pos (by simp)]
  rfl

end Layers

/-! ### Plain texts -/

/-- A text that is a type without operators, wherever a part of a union may end behind it. What it
is read as is good. -/
structure PlainText (text : List Char) (good : Ty → Prop) : Prop where
  solid (follow : List Char) : Solid (text ++ follow)
  begins {follow : List Char} (ends : EndsPart follow) :
    beginsPlain (scan (text ++ follow)).1 = true
  reads (markup : Bool) {size : Nat} {follow : List Char} (ends : EndsPart follow)
    (fits : (text ++ follow).length ≤ size) :
    Reads (plainType (nested markup size)) text follow good

/-- A text that is a type, wherever a type may end behind it. -/
structure TypeText (text : List Char) (good : Ty → Prop) : Prop where
  ne_nil : text ≠ []
  solid (follow : List Char) : Solid (text ++ follow)
  begins {follow : List Char} (ends : EndsType follow) :
    beginsPlain (scan (text ++ follow)).1 = true
  reads (markup : Bool) {size : Nat} {follow : List Char} (ends : EndsType follow)
    (fits : (text ++ follow).length ≤ size) :
    Reads (type (nested markup size) true) text follow good

variable {good : Ty → Prop}

theorem PlainText.ne_nil (plain : PlainText text good) : text ≠ [] := by
  rintro rfl
  exact absurd (plain.begins (.inl (.inl rfl))) (by simp [scan, beginsPlain])

theorem PlainText.mono {better : Ty → Prop} (plain : PlainText text good)
    (implies : ∀ type, good type → better type) : PlainText text better :=
  ⟨plain.solid, plain.begins, fun markup _ _ ends fits c stands =>
    have ⟨read, owns, isGood, reads⟩ := plain.reads markup ends fits c stands
    ⟨read, owns, implies read isGood, reads⟩⟩

theorem TypeText.mono {better : Ty → Prop} (isType : TypeText text good)
    (implies : ∀ type, good type → better type) : TypeText text better :=
  ⟨isType.ne_nil, isType.solid, isType.begins, fun markup _ _ ends fits c stands =>
    have ⟨read, owns, isGood, reads⟩ := isType.reads markup ends fits c stands
    ⟨read, owns, implies read isGood, reads⟩⟩

/-! ### Keywords and names -/

/-- Words that have a rule of their own where a plain type is expected. -/
def ruledWords : List String := ["true", "false", "this", "typeof", "import"]

/-- A word without such a rule is a keyword type or a name. -/
theorem plainType_of_word {g : Phrases} {name : String} (kind : c.token.kind = .word name false)
    (free : name ∉ ruledWords) :
    plainType g c = match keyword? name with
      | some word => if c.next.isMark .dot then typeReference g c
        else .ok (.keyword ⟨⟨c.token.start, c.next.lastStop⟩,
          String.ofList (c.front.take (c.next.lastStop - c.token.start))⟩ word, c.next)
      | none => typeReference g c := by
  have notWord (w : String) (ruled : w ∈ ruledWords) : c.isWord w = false := by
    rw [Cursor.isWord, kind, beq_eq_false_iff_ne]
    rintro same
    cases same
    exact free ruled
  simp only [ruledWords, List.mem_cons, List.not_mem_nil, or_false, not_or] at free
  unfold plainType
  rw [here_bind]
  simp only [kind, free, notWord "this" (by decide), notWord "typeof" (by decide),
    notWord "import" (by decide), Bool.not_false, Bool.or_self, Bool.and_false, Bool.false_eq_true,
    if_false, Bool.false_or, beq_eq_false_iff_ne.mpr, ne_eq, not_false_eq_true]
  cases keyword? name with
  | none => rfl
  | some word =>
    cases c.next.isMark .dot <;> rfl

/-- A keyword is a plain text. -/
theorem PlainText.keyword {name : String} {word : Keyword} (known : keyword? name = some word)
    (letters : isLetters name.toList = true) :
    PlainText name.toList (fun type => ∃ loc, type = .keyword loc word) := by
  -- No other word is this one: the words with a rule of their own are no keywords of types.
  have other (w : String) (unknown : keyword? w = none) : name ≠ w := by
    rintro rfl
    rw [known] at unknown
    cases unknown
  have scans {follow : List Char} (ends : EndsPart follow) :
      scan (name.toList ++ follow) = (.word name false, follow) := by
    rw [scan_letters letters ends.endsWord, String.ofList_toList]
  refine ⟨fun follow => solid_letters follow letters, fun ends => ?_, ?_⟩
  · rw [scans ends]
    simp [beginsPlain, operatorWords, other "keyof" rfl, other "unique" rfl, other "readonly" rfl,
      other "infer" rfl, other "new" rfl, other "abstract" rfl]
  · intro markup size follow ends fits c stands
    have next := stands.next _ (scans ends)
    have kind : c.token.kind = .word name false := by rw [stands.kind, scans ends]
    have free : name ∉ ruledWords := by
      simp [ruledWords, other "true" rfl, other "false" rfl, other "this" rfl, other "typeof" rfl,
        other "import" rfl]
    have noDot (owns : Bool) (offset : Nat) :
        (Cursor.resume owns offset follow).isMark .dot = false :=
      ends.isMark_eq_false owns offset (by decide)
    have reads : plainType (nested markup size) c = _ := plainType_of_word kind free
    simp only [known, next, noDot, Bool.false_eq_true, if_false] at reads
    exact ⟨_, _, ⟨_, rfl⟩, reads⟩

/-- Whether a word of letters can only be a name where a type is expected. -/
def isTypeName (name : String) : Bool :=
  isLetters name.toList && !isReserved name && (keyword? name).isNone &&
    beginsPlain (.word name false)

/-- A name, and what stands in front of an end of a word. -/
theorem scan_typeName {name : String} (isName : isTypeName name = true) (ends : EndsWord follow) :
    scan (name.toList ++ follow) = (.word name false, follow) := by
  simp only [isTypeName, Bool.and_eq_true] at isName
  rw [scan_letters isName.1.1.1 ends, String.ofList_toList]

theorem plainType_of_isTypeName {g : Phrases} {name : String} (isName : isTypeName name = true)
    (kind : c.token.kind = .word name false) : plainType g c = typeReference g c := by
  simp only [isTypeName, Bool.and_eq_true, Bool.not_eq_true', Option.isNone_iff_eq_none] at isName
  have free : name ∉ ruledWords := by
    intro ruled
    have reserved : ∀ w ∈ ruledWords, isReserved w = true := by decide
    rw [reserved name ruled] at isName
    cases isName.1.1.2
  rw [plainType_of_word kind free, isName.1.2]

theorem identifier_of_some {name : String} (identified : c.identifier? = some name) :
    Parser.identifier c = .ok (⟨name, c.token.start, c.token.stop⟩, c.next) := by
  unfold Parser.identifier
  rw [here_bind]
  simp only [identified]
  rfl

theorem dottedNames_of_not_dot (noDot : c.isMark .dot = false) : dottedNames c = .ok ([], c) := by
  refine many_of_rounds (.stop ?_)
  rw [bind_of_ok (eat_of_not_isMark noDot)]
  rfl

/-- A name is read up to what is no dot. -/
theorem entityName_of_isTypeName {name : String} (isName : isTypeName name = true)
    (ends : EndsWord follow) (stands : c.Stands (name.toList ++ follow))
    (noDot : ∀ owns offset, (Cursor.resume owns offset follow).isMark .dot = false) :
    ∃ owns, entityName c
      = .ok (⟨name, [], name⟩, .resume owns (c.token.start + name.toList.length) follow) := by
  have next := stands.next _ (scan_typeName isName ends)
  have kind : c.token.kind = .word name false := by rw [stands.kind, scan_typeName isName ends]
  simp only [isTypeName, Bool.and_eq_true, Bool.not_eq_true', Option.isNone_iff_eq_none] at isName
  -- The word `this` begins an entity name too, but it is no identifier.
  have notThis : c.isWord "this" = false := by
    rw [Cursor.isWord, kind, beq_eq_false_iff_ne]
    rintro same
    cases same
    cases isName.1.1.2
  have identified : c.identifier? = some name := by
    simp [Cursor.identifier?, kind, isName.1.1.2]
  have first : (Identifier.name <$> Parser.identifier) c = .ok (name, c.next) :=
    map_of_ok (identifier_of_some identified)
  refine ⟨(Token.Kind.word name false).ownsTrailing, ?_⟩
  unfold entityName
  rw [here_bind, notThis, if_neg Bool.false_ne_true,
    bind_of_ok first, next]
  beta_reduce
  rw [bind_of_ok (dottedNames_of_not_dot (noDot _ _)), bind_of_ok (excerptFrom_resume stands _),
    String.ofList_toList]
  rfl

theorem typeArguments?_of_not_less {g : Phrases} (noLess : c.isMark .less = false) :
    typeArguments? g c = .ok ([], c) := by
  unfold typeArguments?
  rw [here_bind, noLess]
  rfl

theorem typeReference_of_ok {g : Phrases} {name : EntityName} {args : List Ty}
    (named : entityName c = .ok (name, d)) (applied : typeArguments? g d = .ok (args, e)) :
    ∃ loc, typeReference g c = .ok (.reference loc name args, e) := by
  obtain ⟨loc, extent⟩ := exists_excerptFrom c e
  refine ⟨loc, ?_⟩
  unfold typeReference
  rw [here_bind, bind_of_ok named, bind_of_ok applied,
    bind_of_ok extent]
  rfl

/-- A name is a plain text. -/
theorem PlainText.reference {name : String} (isName : isTypeName name = true) :
    PlainText name.toList (fun type => ∃ loc, type = .reference loc ⟨name, [], name⟩ []) := by
  have letters : isLetters name.toList = true := by
    simp only [isTypeName, Bool.and_eq_true] at isName
    exact isName.1.1.1
  refine ⟨fun follow => solid_letters follow letters, fun ends => ?_, ?_⟩
  · rw [scan_typeName isName ends.endsWord]
    exact (Bool.and_eq_true_iff.mp isName).2
  · intro markup size follow ends fits c stands
    have kind : c.token.kind = .word name false := by
      rw [stands.kind, scan_typeName isName ends.endsWord]
    obtain ⟨owns, named⟩ := entityName_of_isTypeName isName ends.endsWord stands
      fun owns offset => ends.isMark_eq_false owns offset (by decide)
    obtain ⟨loc, reads⟩ := typeReference_of_ok (g := nested markup size) named
      (typeArguments?_of_not_less (ends.isMark_eq_false _ _ (by decide)))
    exact ⟨_, owns, ⟨loc, rfl⟩, by rw [plainType_of_isTypeName isName kind, reads]⟩

/-- A type in angle brackets is read as a list of one argument. -/
theorem TypeText.typeArguments {inner : List Char} (argument : TypeText inner good)
    (owns : Bool) (offset : Nat) (markup : Bool) {size : Nat}
    (fits : ('<' :: (inner ++ '>' :: follow)).length ≤ size) :
    ∃ a owns', good a ∧
      typeArguments? (nested markup size) (.resume owns offset ('<' :: (inner ++ '>' :: follow)))
        = .ok ([a], .resume owns' (offset + 1 + inner.length + 1) follow) := by
  obtain ⟨opens, next⟩ := Cursor.resume_mark (solid_less (inner ++ '>' :: follow)) (scan_less _)
    owns offset
  have noBreak : (Cursor.resume owns offset ('<' :: (inner ++ '>' :: follow))).token.afterLineBreak
      = false := by
    rw [Cursor.resume_of_solid owns offset (solid_less _)]
  generalize Cursor.resume owns offset ('<' :: (inner ++ '>' :: follow)) = c at *
  have isLess : c.isMark .less = true := by rw [Cursor.isMark, opens]; rfl
  -- The argument begins behind the bracket.
  have ends : EndsType ('>' :: follow) := .inr ⟨follow, rfl⟩
  have stands : c.next.Stands (inner ++ '>' :: follow) :=
    next ▸ Cursor.stands_resume _ _ (argument.solid _)
  have inside : c.next.size < size := by
    rw [stands.size]
    exact fits
  obtain ⟨a, owns', isGood, reads⟩ := argument.reads markup ends stands.size.ge c.next stands
  rw [next, Cursor.start_resume _ _ (argument.solid _), ← next] at reads
  have notClosed : c.next.isMark .greater = false :=
    isMark_eq_false_of_beginsPlain (stands.kind ▸ argument.begins ends) (by decide)
  -- The list is closed behind the argument.
  obtain ⟨closes, behind⟩ := Cursor.resume_mark (solid_greater follow) (scan_greater follow)
    owns' (offset + 1 + inner.length)
  have isGreater : (Cursor.resume owns' (offset + 1 + inner.length) ('>' :: follow)).isMark .greater
      = true := by
    rw [Cursor.isMark, closes]
    rfl
  have further : (Cursor.resume owns' (offset + 1 + inner.length) ('>' :: follow)).size
      < c.next.size := by
    rw [(Cursor.stands_resume _ _ (solid_greater follow)).size, stands.size, List.length_append]
    have := List.length_pos_iff.mpr argument.ne_nil
    omega
  have list : commaList ((nested markup size).type true) .greater c.next = _ :=
    commaList_of_single notClosed ((type_nested inside).trans reads) further isGreater
  refine ⟨a, (Token.Kind.mark .greater).ownsTrailing, isGood, ?_⟩
  unfold typeArguments?
  rw [← behind, here_bind, isLess, noBreak, Bool.not_false,
    Bool.and_self, if_pos rfl, Grammar.typeArguments, bind_of_ok (expect_of_isMark isLess), list]

/-- A name with a type for an argument is a plain text. -/
theorem PlainText.applied {name : String} (isName : isTypeName name = true) {inner : List Char}
    (argument : TypeText inner good) :
    PlainText (name.toList ++ '<' :: (inner ++ ['>']))
      (fun type => ∃ loc a, good a ∧ type = .reference loc ⟨name, [], name⟩ [a]) := by
  have letters : isLetters name.toList = true := by
    simp only [isTypeName, Bool.and_eq_true] at isName
    exact isName.1.1.1
  have split (follow : List Char) : name.toList ++ '<' :: (inner ++ ['>']) ++ follow
      = name.toList ++ '<' :: (inner ++ '>' :: follow) := by simp
  have word (rest : List Char) : EndsWord ('<' :: rest) := by
    simp [EndsWord]
    decide +kernel
  refine ⟨fun follow => ?_, fun {follow} _ => ?_, ?_⟩
  · rw [split]
    exact solid_letters _ letters
  · rw [split, scan_typeName isName (word _)]
    exact (Bool.and_eq_true_iff.mp isName).2
  · intro markup size follow ends fits c stands
    rw [split] at stands fits
    have kind : c.token.kind = .word name false := by
      rw [stands.kind, scan_typeName isName (word _)]
    have noDot (owns : Bool) (offset : Nat) :
        (Cursor.resume owns offset ('<' :: (inner ++ '>' :: follow))).isMark .dot = false := by
      rw [Cursor.isMark, (Cursor.stands_resume _ _ (solid_less _)).kind, scan_less]
      rfl
    obtain ⟨owns, named⟩ := entityName_of_isTypeName isName (word _) stands noDot
    have inside : ('<' :: (inner ++ '>' :: follow)).length ≤ size := by
      rw [List.length_append] at fits
      omega
    -- What stands between the angle brackets is the argument, by its own reading; the name in front
    -- has no dot behind it.
    obtain ⟨a, owns', isGood, arguments⟩ := argument.typeArguments owns
      (c.token.start + name.toList.length) markup inside
    obtain ⟨loc, reads⟩ := typeReference_of_ok named arguments
    refine ⟨_, owns', ⟨loc, a, isGood, rfl⟩, ?_⟩
    have length : c.token.start + (name.toList ++ '<' :: (inner ++ ['>'])).length
        = c.token.start + name.toList.length + 1 + inner.length + 1 := by
      simp only [List.length_append, List.length_cons, List.length_nil]
      omega
    rw [plainType_of_isTypeName isName kind, reads, length]

/-! ### Unions -/

/-- Texts with a bar in front of each. -/
def barred (texts : List (List Char)) : List Char :=
  texts.flatMap fun text => ' ' :: '|' :: ' ' :: text

variable {ι : Type} {texts : ι → List Char} {goods : ι → Ty → Prop}

/-- A part may end in front of more parts. -/
theorem endsPart_barred (ends : EndsType follow) (more : List (List Char)) :
    EndsPart (barred more ++ follow) := by
  cases more with
  | nil => exact .inl ends
  | cons text rest => exact .inr ⟨text ++ (barred rest ++ follow), by simp [barred]⟩

/-- A plain text is read as a part of a union. -/
theorem PlainText.unionPart (plain : PlainText text good) (markup : Bool) {size : Nat}
    (ends : EndsPart follow) (fits : (text ++ follow).length ≤ size) :
    Reads (unionPart (nested markup size) true) text follow good := by
  intro c stands
  obtain ⟨read, owns, isGood, reads⟩ := plain.reads markup ends fits c stands
  have begins : beginsPlain c.token.kind = true := stands.kind ▸ plain.begins ends
  exact ⟨read, owns, isGood, unionPart_of_plainType begins reads
    (ends.isMark_eq_false _ _ (by decide)) (ends.isMark_eq_false _ _ (by decide))⟩

/-- The parts behind the first one are read one after the other. -/
theorem exists_rounds_barred (markup : Bool) {size : Nat} (ends : EndsType follow) (more : List ι)
    (plain : ∀ i ∈ more, PlainText (texts i) (goods i))
    (fits : (barred (more.map texts) ++ follow).length ≤ size) (owns : Bool) (offset : Nat) :
    ∃ types owns', List.Forall₂ goods more types ∧
      Rounds (do if ← eat .bar then some <$> unionPart (nested markup size) true else pure none)
        (.resume owns offset (barred (more.map texts) ++ follow)) types
        (.resume owns' (offset + (barred (more.map texts)).length) follow) := by
  induction more generalizing owns offset with
  | nil =>
    refine ⟨[], owns, .nil, .stop ?_⟩
    rw [List.map_nil, barred, List.flatMap_nil, List.nil_append,
      bind_of_ok (eat_of_not_isMark (ends.isMark_bar owns offset))]
    rfl
  | cons i rest ih =>
    have split : barred ((i :: rest).map texts) ++ follow
        = ' ' :: '|' :: ' ' :: (texts i ++ (barred (rest.map texts) ++ follow)) := by
      simp [barred]
    have length : offset + (barred ((i :: rest).map texts)).length
        = offset + 2 + 1 + (texts i).length + (barred (rest.map texts)).length := by
      simp only [barred, List.map_cons, List.flatMap_cons, List.length_append, List.length_cons]
      omega
    rw [split] at fits ⊢
    rw [length]
    have tail := endsPart_barred ends (rest.map texts)
    have shorter : (texts i ++ (barred (rest.map texts) ++ follow)).length ≤ size := by
      simp only [List.length_cons] at fits
      omega
    -- Over the bar, and over the part behind it.
    obtain ⟨kind, next⟩ := Cursor.resume_bar owns offset
      (texts i ++ (barred (rest.map texts) ++ follow))
    have isBar : (Cursor.resume owns offset (' ' :: '|' :: ' ' :: (texts i ++
        (barred (rest.map texts) ++ follow)))).isMark .bar = true := by
      rw [Cursor.isMark, kind]
      rfl
    have first := plain i List.mem_cons_self
    obtain ⟨read, owns₁, isGood, reads⟩ := first.unionPart markup tail shorter _
      (Cursor.stands_resume_space (Token.Kind.mark .bar).ownsTrailing (offset + 2) (first.solid _))
    rw [Cursor.start_resume_space _ _ (first.solid _), ← next] at reads
    obtain ⟨types, owns₂, areGood, rounds⟩ := ih (fun j mem => plain j (List.mem_cons_of_mem _ mem))
      (by rw [List.length_append] at shorter; omega) owns₁ (offset + 2 + 1 + (texts i).length)
    refine ⟨read :: types, owns₂, .cons isGood areGood, .more ?_ ?_ rounds⟩
    · rw [bind_of_ok (eat_of_isMark isBar), if_pos rfl, map_of_ok reads]
    · have le := tail.size_le owns₁ (offset + 2 + 1 + (texts i).length)
      have size : (Cursor.resume owns offset (' ' :: '|' :: ' ' :: (texts i ++
          (barred (rest.map texts) ++ follow)))).size = _ :=
        (Cursor.stands_resume_space owns offset (solid_bar _)).size
      rw [size]
      simp only [List.length_cons, List.length_append] at le ⊢
      omega

/-- What a union of some parts is read as: the part itself if there is only one. -/
def IsUnion (goods : ι → Ty → Prop) (parts : List ι) (type : Ty) : Prop :=
  (∃ i, parts = [i] ∧ goods i type) ∨
    ∃ loc types, type = .union loc types ∧ List.Forall₂ goods parts types

/-- Plain texts with bars between them are a type. -/
theorem TypeText.union {first : ι} {more : List ι}
    (plain : ∀ i ∈ first :: more, PlainText (texts i) (goods i)) :
    TypeText (texts first ++ barred (more.map texts)) (IsUnion goods (first :: more)) := by
  have head := plain first List.mem_cons_self
  have split (follow : List Char) : texts first ++ barred (more.map texts) ++ follow
      = texts first ++ (barred (more.map texts) ++ follow) := List.append_assoc _ _ _
  refine ⟨?_, fun follow => ?_, fun ends => ?_, ?_⟩
  · exact List.append_ne_nil_of_left_ne_nil head.ne_nil _
  · rw [split]
    exact head.solid _
  · rw [split]
    exact head.begins (endsPart_barred ends _)
  · intro markup size follow ends fits c stands
    rw [split] at stands fits
    have tail := endsPart_barred ends (more.map texts)
    obtain ⟨read, owns, isGood, reads⟩ := head.unionPart markup tail fits c stands
    have begins : beginsPlain c.token.kind = true := stands.kind ▸ head.begins tail
    have noBar : c.isMark .bar = false := isMark_eq_false_of_beginsPlain begins (by decide)
    -- With one part alone there is no union around it: the reading of the part is that of the
    -- whole.
    obtain ⟨joined, owns', isUnion, joins⟩ : ∃ joined owns', IsUnion goods (first :: more) joined ∧
        joinedType .bar .union (Grammar.unionPart (nested markup size) true) c
          = .ok (joined, .resume owns'
            (c.token.start + (texts first ++ barred (more.map texts)).length) follow) := by
      cases more with
      | nil =>
        have only : joinedType .bar .union _ c = _ :=
          joinedType_of_part noBar reads (ends.isMark_bar owns _)
        exact ⟨read, owns, .inl ⟨first, rfl, isGood⟩, by simpa [barred] using only⟩
      | cons second more =>
        have shorter : (barred ((second :: more).map texts) ++ follow).length ≤ size := by
          rw [List.length_append] at fits
          omega
        obtain ⟨types, owns', areGood, rounds⟩ := exists_rounds_barred markup ends (second :: more)
          (fun i mem => plain i (List.mem_cons_of_mem _ mem)) shorter owns
          (c.token.start + (texts first).length)
        have isBar : (Cursor.resume owns (c.token.start + (texts first).length)
            (barred ((second :: more).map texts) ++ follow)).isMark .bar = true := by
          have split : barred ((second :: more).map texts) ++ follow
              = ' ' :: '|' :: ' ' :: (texts second ++ (barred (more.map texts) ++ follow)) := by
            simp [barred]
          rw [Cursor.isMark, split, (Cursor.resume_bar _ _ _).1]
          rfl
        obtain ⟨loc, joins⟩ : ∃ loc, joinedType .bar .union _ c = .ok (.union loc _, _) :=
          joinedType_of_rounds noBar reads isBar rounds
        rw [List.length_append, ← Nat.add_assoc]
        exact ⟨_, owns', .inr ⟨loc, _, rfl, .cons isGood areGood⟩, joins⟩
    exact ⟨joined, owns', isUnion,
      type_of_joinedType begins joins ((EndsPart.isWord_eq_false (.inl ends)) _ _ _)⟩

/-! ### A whole text -/

/-- Reads a type up to the end of the text. -/
def wholeType (g : Phrases) : Parser Ty := do
  let read ← g.type true
  if (← here).token.kind == .endOfText then pure read else fail

/-- Reads a whole text as a type. -/
def readType (markup : Bool) (text : String) : Except Failure Ty :=
  let start := Cursor.ofScript text.toList
  (·.1) <$> wholeType (knot markup rules (start.size + 1)) start

theorem wholeType_of_type {g : Phrases} {read : Ty} (reads : g.type true c = .ok (read, d))
    (ended : d.token.kind = .endOfText) : wholeType g c = .ok (read, d) := by
  unfold wholeType
  rw [bind_of_ok reads, here_bind, ended]
  rfl

/-- A cursor at the start of a script stands in front of it, unless a gap is there. -/
theorem stands_ofScript (solid : Solid text) (begins : beginsPlain (scan text).1 = true) :
    (Cursor.ofScript text).Stands text := by
  -- The line at the start of a script that is passed over begins with `#!`, which is no token.
  have noComment : ∀ rest, text ≠ '#' :: '!' :: rest := by
    rintro rest rfl
    have notWord : (isIdentifierStart '#' || '#' == '\\') = false := by decide
    have noName : Lexer.identifier isIdentifierStart ('!' :: rest) = ([], false, '!' :: rest) := by
      rw [Lexer.identifier]
      rfl
    have malformed : (scan ('#' :: '!' :: rest)).1 = .malformed := by
      rw [scan, notWord]
      simp only [noName]
      rfl
    rw [malformed] at begins
    cases begins
  have whole : Cursor.ofScript text = .read false .blank true 0 text := by
    unfold Cursor.ofScript
    split
    · exact absurd rfl (noComment _)
    · rfl
  rw [whole, Cursor.read, solid]
  exact ⟨rfl, rfl, by simp⟩

/-- A text that is a type is read as one. -/
theorem TypeText.exists_readType {text : String} (isType : TypeText text.toList good)
    (markup : Bool) : ∃ type, good type ∧ readType markup text = .ok type := by
  have stands : (Cursor.ofScript text.toList).Stands (text.toList ++ []) := by
    rw [List.append_nil]
    have solid := isType.solid []
    have begins := isType.begins (.inl rfl : EndsType [])
    rw [List.append_nil] at solid begins
    exact stands_ofScript solid begins
  have fits : (text.toList ++ []).length ≤ (Cursor.ofScript text.toList).size + 1 := by
    rw [stands.size]
    exact Nat.le_succ _
  obtain ⟨read, owns, isGood, reads⟩ := isType.reads markup (.inl rfl : EndsType []) fits _ stands
  have ended (offset : Nat) : (Cursor.resume owns offset []).token.kind = .endOfText := by
    rw [(Cursor.stands_resume _ _ solid_nil).kind, scan]
  have whole := wholeType_of_type (g := knot markup rules _) (by rw [knot_eq]; exact reads)
    (ended _)
  refine ⟨read, isGood, ?_⟩
  unfold readType
  simp only [whole]
  rfl

end TypedProps.Grammar
