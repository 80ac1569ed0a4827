import TypedProps.Grammar.Cursor

/-!
# `TypedProps.Grammar.Types`: types, parameters and members

The rules for type annotations. Of a type that is computed from other types only its extent is
kept. Parameters are read here too, because function types have them; their default values are
expressions, which the rules reach through `Phrases`.
-/

set_option autoImplicit false

namespace TypedProps.Grammar

open TypedProps.Grammar.Parser

/-! ### Names -/

/-- Reads the identifiers after the first one of a dotted name. -/
def dottedNames : Parser (List String) :=
  many do if ← eat .dot then some <$> word else pure none

/-- Reads a type name. -/
def entityName : Parser EntityName := do
  let start ← here
  let first ← if start.isWord "this" then word else Identifier.name <$> identifier
  let more ← dottedNames
  pure ⟨first, more, (← excerptFrom start).text⟩

/-- Reads type arguments with their brackets. -/
def typeArguments (g : Phrases) : Parser (List Ty) := do
  expect .less
  commaList (g.type true) .greater

/-- Reads type arguments if they begin on the line of what precedes them. -/
def typeArguments? (g : Phrases) : Parser (List Ty) := do
  let c ← here
  if c.isMark .less && !c.token.afterLineBreak then typeArguments g else pure []

/-- Reads one type parameter and answers with its name. -/
def typeParameter (g : Phrases) : Parser String := do
  let _ ← many do
    let c ← here
    if c.isWord "const" || c.isWord "in" || (c.isWord "out" && c.next.isIdentifier) then
      skip
      pure (some ())
    else pure none
  let name ← identifier
  if ← eatWord "extends" then discard (g.type true)
  let _ ← after? .equal (g.type true)
  pure name.name

/-- Reads type parameters with their brackets, if there are any. -/
def typeParameters (g : Phrases) : Parser (List String) := do
  if ← eat .less then commaList (typeParameter g) .greater else pure []

/-! ### Patterns and parameters -/

/-- Reads the key of a property or member; `none` for a key that is computed. `number` gives the
name that a number spells. -/
def propertyKey (number : String → String) (g : Phrases) : Parser (Option String) := do
  let c ← here
  match c.token.kind with
  | .word name _ => skip; pure (some name)
  | .string value => skip; pure (some value)
  | .number spelling => skip; pure (some (number spelling))
  | .bigint | .privateName => skip; pure none
  | .mark .bracketOpen =>
    skip
    let _ ← g.expression true
    expect .bracketClose
    pure none
  | _ => fail

/-- Reads a pattern and its default value. -/
def patternElement (g : Phrases) : Parser Unit := do
  let _ ← g.pattern
  let _ ← after? .equal (g.expression true)

/-- Reads one property of an object pattern. -/
def patternProperty (g : Phrases) : Parser Unit := do
  if ← eat .ellipsis then discard g.pattern
  else
    let start ← here
    let _ ← propertyKey id g
    if ← eat .colon then patternElement g
    else if start.isIdentifier then discard (after? .equal (g.expression true))
    else fail

/-- Reads a name, or a pattern that takes a value apart, without its type. -/
def bindingPattern (g : Phrases) : Parser Pattern := do
  let c ← here
  match c.token.kind with
  | .mark .braceOpen =>
    skip
    let _ ← commaList (patternProperty g) .braceClose
    pure ⟨none, none⟩
  | .mark .bracketOpen =>
    skip
    let _ ← many do
      let c ← here
      if c.isMark .bracketClose then pure none
      else if c.isMark .comma then skip; pure (some ())
      else
        let _ ← eat .ellipsis
        patternElement g
        if !(← here).isMark .bracketClose then expect .comma
        pure (some ())
    expect .bracketClose
    pure ⟨none, none⟩
  | _ => do
    let name ← identifier
    pure ⟨some name.name, none⟩

/-- Words that may stand in front of a parameter's name. -/
def parameterModifiers : List String := ["public", "private", "protected", "readonly", "override"]

/-- A parameter in a list. -/
structure Parameter where
  /-- What is written, up to the type or, without one, the pattern. -/
  text : String
  pattern : Pattern
  hasDefault : Bool

/-- Reads one parameter. -/
def parameter (g : Phrases) : Parser Parameter := do
  let _ ← many do
    let c ← here
    let ahead := c.next
    if parameterModifiers.any c.isWord
        && (ahead.word?.isSome || ahead.isMark .braceOpen || ahead.isMark .bracketOpen) then
      skip
      pure (some ())
    else pure none
  let start ← here
  let rest ← eat .ellipsis
  let bound ← if (← here).isWord "this" then (do let name ← word; pure ⟨some name, none⟩)
    else bindingPattern g
  let untyped := (← excerptFrom start).text
  let _ ← eat .question
  let type ← after? .colon (g.type true)
  let text ← if type.isNone then pure untyped else Excerpt.text <$> excerptFrom start
  let value ← after? .equal (g.expression true)
  pure ⟨text, ⟨if rest then none else bound.name, type⟩, value.isSome⟩

/-- Reads a parameter list with its parentheses. Parameters of a type have no default values. -/
def parameterList (g : Phrases) (defaults : Bool) : Parser (List Parameter) := do
  expect .parenOpen
  let found ← commaElements (parameter g) .parenClose
  if !defaults && found.any (·.hasDefault) then fail
  expect .parenClose
  pure found

/-- Reads the type of a result, which may be a predicate on a parameter. -/
def resultType (g : Phrases) : Parser Ty := do
  let start ← here
  let predicate := fun (c : Cursor) =>
    c.word?.isSome && c.next.isWord "is" && !c.next.token.afterLineBreak
  let ahead := start.next
  if start.isWord "asserts" && !ahead.token.afterLineBreak && !ahead.isWord "is"
      && (ahead.isIdentifier || ahead.isWord "this") then
    skip
    let named ← here
    skip
    if predicate named then
      skip
      let _ ← g.type true
    pure (.other (← excerptFrom start))
  else if predicate start then
    skip
    skip
    let _ ← g.type true
    pure (.other (← excerptFrom start))
  else g.type true

/-! ### Types -/

/-- Whether a function type stands at an opening parenthesis: its first parameter, or its end,
tells it from a type in parentheses. -/
def startsFunctionType (g : Phrases) : Parser Bool := do
  let answer ← lookAhead do
    expect .parenOpen
    let c ← here
    if c.isMark .parenClose || c.isMark .ellipsis then pure true
    else
      if c.word?.isSome && !(c.isIdentifier || c.isWord "this") then fail
      if c.isWord "this" then skip else discard (bindingPattern g)
      let c ← here
      if [Mark.colon, .comma, .question, .equal].any c.isMark then pure true
      else pure (c.isMark .parenClose && c.next.isMark .arrow)
  pure (answer.getD false)

/-- Reads a function or constructor type. -/
def functionType (g : Phrases) : Parser Ty := do
  let start ← here
  let _ ← eatWord "abstract"
  let _ ← eatWord "new"
  let _ ← typeParameters g
  let _ ← parameterList g false
  expect .arrow
  let _ ← resultType g
  pure (.function (← excerptFrom start))

/-- The keyword type that a word is. -/
def keyword? : String → Option Keyword
  | "string" => some .string
  | "number" => some .number
  | "boolean" => some .boolean
  | "object" => some .object
  | "any" => some .any
  | "unknown" => some .unknown
  | "undefined" => some .undefined
  | "void" => some .void
  | "null" => some .null
  | "never" => some .never
  | "symbol" => some .symbol
  | "bigint" => some .bigint
  | "intrinsic" => some .intrinsic
  | _ => none

/-- Reads a reference to a named type. -/
def typeReference (g : Phrases) : Parser Ty := do
  let start ← here
  let name ← entityName
  let args ← typeArguments? g
  pure (.reference (← excerptFrom start) name args)

/-- Reads the argument of `import` in a type, and what is selected from it. -/
def importType (g : Phrases) : Parser Unit := do
  expectWord "import"
  expect .parenOpen
  let _ ← commaList (g.expression true) .parenClose
  let _ ← dottedNames
  let _ ← typeArguments? g

/-- Reads `typeof` and what it asks about. -/
def typeQuery (g : Phrases) : Parser Unit := do
  expectWord "typeof"
  if (← here).isWord "import" then importType g
  else
    let _ ← word
    let _ ← many do
      if ← eat .dot then
        if (← here).token.kind == .privateName then skip else discard word
        pure (some ())
      else pure none
    let _ ← typeArguments? g

/-- Reads the end of a member. -/
def memberEnd : Parser Unit := do
  if !(← eat .comma) then semicolon

/-- Whether a mapped type stands at an opening brace. -/
def startsMappedType : Parser Bool := do
  let answer ← lookAhead do
    expect .braceOpen
    if (← eat .plus) || (← eat .minus) then pure ((← here).isWord "readonly")
    else
      let _ ← eatWord "readonly"
      expect .bracketOpen
      let _ ← identifier
      pure ((← here).isWord "in")
  pure (answer.getD false)

/-- Reads a mapped type. -/
def mappedType (g : Phrases) : Parser Unit := do
  let sign : Parser Bool := do if ← eat .plus then pure true else eat .minus
  expect .braceOpen
  if ← sign then expectWord "readonly" else discard (eatWord "readonly")
  expect .bracketOpen
  let _ ← identifier
  expectWord "in"
  let _ ← g.type true
  if ← eatWord "as" then discard (g.type true)
  expect .bracketClose
  if ← sign then expect .question else discard (eat .question)
  let _ ← after? .colon (g.type true)
  memberEnd
  expect .braceClose

/-- Whether a modifier stands here: a word in front of what may be the beginning of a member. -/
def isModifier (name : String) (c : Cursor) : Bool :=
  let ahead := c.next
  c.isWord name && !ahead.token.afterLineBreak &&
    match ahead.token.kind with
    | .word .. | .string _ | .number _ | .bigint | .privateName => true
    | .mark m => [Mark.bracketOpen, .braceOpen, .star, .ellipsis].contains m
    | _ => false

/-- Whether an index signature stands at an opening bracket. -/
def startsIndexSignature (c : Cursor) : Bool :=
  c.isMark .bracketOpen && c.next.isIdentifier && c.next.next.isMark .colon

/-- Reads what follows the key of an index signature's opening bracket. -/
def indexSignature (g : Phrases) : Parser Unit := do
  expect .bracketOpen
  let _ ← identifier
  expect .colon
  let _ ← g.type true
  expect .bracketClose
  let _ ← after? .colon (g.type true)
  memberEnd

/-- What a function or a method has between its name and its body. -/
structure Signature where
  generics : List String
  parameters : List Parameter
  result : Option Ty

/-- Reads a signature. -/
def signature (g : Phrases) (defaults : Bool) : Parser Signature := do
  let generics ← typeParameters g
  let parameters ← parameterList g defaults
  let result ← after? .colon (resultType g)
  pure ⟨generics, parameters, result⟩

/-- Reads an accessor of an object type. -/
def accessorSignature (g : Phrases) : Parser Unit := do
  if !(← eatWord "get") then expectWord "set"
  let _ ← propertyKey id g
  let _ ← parameterList g true
  let _ ← after? .colon (g.type true)
  memberEnd

/-- Reads a member of an object type. -/
def typeMember (g : Phrases) : Parser Member := do
  let start ← here
  let docs := start.token.docs
  let opensSignature := fun (c : Cursor) => c.isMark .parenOpen || c.isMark .less
  if opensSignature start || (start.isWord "new" && opensSignature start.next) then
    let _ ← eatWord "new"
    let _ ← signature g false
    memberEnd
    return .other (← excerptFrom start) docs
  if isModifier "readonly" start then skip
  if startsIndexSignature (← here) then
    indexSignature g
    return .other (← excerptFrom start) docs
  if let some _ ← attempt (accessorSignature g) then
    return .other (← excerptFrom start) docs
  let name ← propertyKey id g
  let optional ← eat .question
  if opensSignature (← here) then
    let s ← signature g false
    memberEnd
    return .method (← excerptFrom start) docs name optional s.generics (s.parameters.map (·.text))
      s.result
  else
    let type ← after? .colon (g.type true)
    memberEnd
    return .property (← excerptFrom start) docs name optional type

/-- Reads the members of an object type with their braces. -/
def typeMembers (g : Phrases) : Parser (List Member) := do
  expect .braceOpen
  let members ← many do
    if (← here).isMark .braceClose then pure none else some <$> typeMember g
  expect .braceClose
  pure members

/-- Reads the label of a tuple element. -/
def tupleLabel : Parser Unit := do
  let _ ← eat .ellipsis
  let _ ← word
  let _ ← eat .question
  expect .colon

/-- Reads an element of a tuple. -/
def tupleElement (g : Phrases) : Parser Ty := do
  let _ ← attempt tupleLabel
  let start ← here
  if ← eat .ellipsis then
    let _ ← g.type true
    pure (.other (← excerptFrom start))
  else
    let type ← g.type true
    if ← eat .question then pure (.optional (← excerptFrom start) type) else pure type

/-- Reads a type that no operator is applied to. -/
def plainType (g : Phrases) : Parser Ty := do
  let start ← here
  let extent : Parser Excerpt := excerptFrom start
  let literal (form : LiteralForm) : Parser Ty := do
    skip
    pure (.literal (← extent) form)
  match start.token.kind with
  | .string _ => literal .string
  | .number _ => literal .number
  | .bigint => literal .bigint
  | .mark .minus =>
    match start.next.token.kind with
    | .number _ => skip; literal .number
    | .bigint => skip; literal .bigint
    | _ => fun _ => .error ⟨start.next.token.start⟩
  | .mark .backquote =>
    template (discard (g.type true))
    pure (.literal (← extent) .template)
  | .mark .parenOpen =>
    skip
    let inner ← g.type true
    expect .parenClose
    pure (.paren (← extent) inner)
  | .mark .bracketOpen =>
    skip
    let elements ← commaList (tupleElement g) .bracketClose
    pure (.tuple (← extent) elements)
  | .mark .braceOpen =>
    if ← startsMappedType then
      mappedType g
      pure (.mapped (← extent))
    else
      let members ← typeMembers g
      pure (.object (← extent) members)
  | .word name escaped =>
    if !escaped && (name == "true" || name == "false") then literal .boolean
    else if start.isWord "this" then
      skip
      pure (.other (← extent))
    else if start.isWord "typeof" then
      typeQuery g
      pure (.other (← extent))
    else if start.isWord "import" then
      importType g
      pure (.other (← extent))
    else match keyword? name with
      | some known =>
        if escaped || start.next.isMark .dot then typeReference g
        else
          skip
          pure (.keyword (← extent) known)
      | none => typeReference g
  | _ => fail

/-- Reads a type with the brackets behind it: arrays and indexed types. -/
def postfixType (g : Phrases) : Parser Ty := do
  let start ← here
  let base ← plainType g
  loop (fun type => do
    let c ← here
    if c.isMark .bracketOpen && !c.token.afterLineBreak then
      skip
      if ← eat .bracketClose then pure (.array (← excerptFrom start) type, true)
      else
        let _ ← g.type true
        expect .bracketClose
        pure (.other (← excerptFrom start), true)
    else pure (type, false)) base

/-- Reads a type behind `infer`. Its constraint is part of it unless a conditional type may go on
there. -/
def inferredType (g : Phrases) (conditional : Bool) : Parser Unit := do
  expectWord "infer"
  let _ ← identifier
  let _ ← attempt do
    expectWord "extends"
    let _ ← g.type false
    if conditional && (← here).isMark .question then fail

/-- Reads a type with the operators in front of it. -/
def prefixedType (g : Phrases) (conditional : Bool) : Parser Ty := do
  let operators ← many do
    let c ← here
    if ["keyof", "unique", "readonly"].any c.isWord then skip; pure (some c) else pure none
  let start ← here
  let base ←
    if start.isWord "infer" then do
      inferredType g conditional
      pure (.other (← excerptFrom start))
    else postfixType g
  operators.foldrM (fun c type => do
    let loc ← excerptFrom c
    pure (if c.isWord "readonly" then .readonly loc type else .other loc)) base

/-- Reads parts joined by `joint`, which may also stand in front of the first. -/
def joinedType (joint : Mark) (make : Excerpt → List Ty → Ty) (part : Parser Ty) : Parser Ty := do
  let start ← here
  let _ ← eat joint
  let first ← part
  if !(← here).isMark joint then return first
  let more ← many do if ← eat joint then some <$> part else pure none
  return make (← excerptFrom start) (first :: more)

/-- Reads a type without its conditional part. -/
def unconditionalType (g : Phrases) (conditional : Bool) : Parser Ty := do
  let c ← here
  if c.isMark .less || c.isWord "new" || (c.isWord "abstract" && c.next.isWord "new") then
    functionType g
  else if c.isMark .parenOpen && (← startsFunctionType g) then functionType g
  else
    joinedType .bar .union (joinedType .ampersand .intersection (prefixedType g conditional))

/-- Reads a type. -/
def type (g : Phrases) (conditional : Bool) : Parser Ty := do
  let start ← here
  let checked ← unconditionalType g conditional
  let c ← here
  if !conditional || c.token.afterLineBreak || !c.isWord "extends" then return checked
  skip
  let _ ← g.type false
  expect .question
  let _ ← g.type true
  expect .colon
  let _ ← g.type true
  return .other (← excerptFrom start)

end TypedProps.Grammar
