import TypedProps.Grammar.Expressions

/-!
# `TypedProps.Grammar.Statements`: statements and declarations

The rules for statements. Declarations answer with what they declare, because at the top of a module
that is wanted; of all other statements only the end is found.
-/

set_option autoImplicit false

namespace TypedProps.Grammar

open TypedProps.Grammar.Parser

/-! ### Variables -/

/-- Reads one variable of a declaration. -/
def variableDeclarator (g : Phrases) (allowIn : Bool) : Parser Variable := do
  let bound ← bindingPattern g
  let _ ← eat .bang
  let type ← after? .colon (g.type true)
  let init ← after? .equal (g.expression allowIn)
  pure ⟨⟨bound.name, type⟩, init⟩

/-- Reads the variables of a declaration. -/
def variableList (g : Phrases) (allowIn : Bool) : Parser (List Variable) := do
  let found ← loop (fun acc => do
    let v ← variableDeclarator g allowIn
    pure (v :: acc, ← eat .comma)) []
  pure found.reverse

/-- Whether a word is followed by another one on its line. -/
def leadsName (c : Cursor) : Bool := c.next.isIdentifier && !c.next.token.afterLineBreak

/-- Steps over the keyword of a variable declaration, if one stands here. -/
def variableKeyword : Parser Bool := do
  let c ← here
  let ahead := c.next
  if c.isWord "var" || (c.isWord "const" && !ahead.isWord "enum")
      || (c.isWord "let"
        && (ahead.isIdentifier || ahead.isMark .braceOpen || ahead.isMark .bracketOpen)) then
    skip
    pure true
  else pure false

/-- Steps over `using` or `await using` in front of a variable. -/
def resourceKeyword : Parser Bool := do
  let c ← here
  if c.isWord "using" && leadsName c then
    skip
    pure true
  else if c.isWord "await" && c.next.isWord "using" && leadsName c.next then
    skip
    skip
    pure true
  else pure false

/-! ### Declarations -/

/-- Reads a function declaration from the keyword on. -/
def functionDeclaration (g : Phrases) (named : Bool) : Parser Unit := do
  let _ ← eatWord "async"
  expectWord "function"
  let _ ← eat .star
  if named || (← here).isIdentifier then discard identifier
  let _ ← functionTail g false

/-- Reads an enumeration from its keyword on. -/
def enumDeclaration (g : Phrases) : Parser Decl := do
  expectWord "enum"
  let name ← identifier
  expect .braceOpen
  let members ← commaList (do
    let _ ← propertyKey id g
    EnumMember.mk <$> after? .equal (g.expression true)) .braceClose
  pure (.enumDecl name members)

/-- Reads an entry of an `extends` list. -/
def interfaceBase (g : Phrases) : Parser Base := do
  let start ← here
  let name ← entityName
  let _ ← typeArguments? g
  pure ⟨← spanFrom start, if name.more.isEmpty then some name.first else none⟩

/-- Reads what an interface has after its name. -/
def interfaceTail (g : Phrases) : Parser (List String × List Base × List Member) := do
  let generics ← typeParameters g
  let bases ← (do
    if ← eatWord "extends" then
      let found ← loop (fun acc => do
        let base ← interfaceBase g
        pure (base :: acc, ← eat .comma)) []
      pure found.reverse
    else pure [])
  let members ← typeMembers g
  pure (generics, bases, members)

/-- Reads a type alias from its keyword on. -/
def aliasDeclaration (g : Phrases) : Parser Decl := do
  expectWord "type"
  let name ← identifier
  let generics ← typeParameters g
  expect .equal
  let body ← g.type true
  semicolon
  pure (.typeAlias name generics body)

/-- Reads the body of a namespace, or its end where it has none. -/
def namespaceBody (g : Phrases) : Parser Unit := do
  if ← eat .braceOpen then
    let _ ← many do
      if (← here).isMark .braceClose then pure none else some <$> g.statement true
    expect .braceClose
  else semicolon

/-- Reads a declaration, if one stands here. -/
def declaration? (g : Phrases) : Parser (Option Decl) := do
  -- `declare` says nothing about what is declared
  let c ← here
  let ambient := c.isWord "declare" && c.next.word?.isSome && !c.next.token.afterLineBreak
    && !(["in", "instanceof", "as", "satisfies"].any c.next.isWord)
  if ambient then skip
  let c ← here
  let ahead := c.next
  if ← variableKeyword then
    let list ← variableList g true
    semicolon
    return some (.variables list)
  if ← resourceKeyword then
    let _ ← variableList g true
    semicolon
    return some .other
  if c.isWord "function"
      || (c.isWord "async" && ahead.isWord "function" && !ahead.token.afterLineBreak) then
    functionDeclaration g true
    return some .other
  if c.isWord "class" || (c.isWord "abstract" && ahead.isWord "class") then
    let _ ← eatWord "abstract"
    expectWord "class"
    let name ← identifier
    classTail g
    return some (.classDecl name)
  if c.isWord "const" then
    skip
    return some (← enumDeclaration g)
  if c.isWord "enum" then return some (← enumDeclaration g)
  if c.isWord "interface" && leadsName c then
    skip
    let name ← identifier
    let (generics, bases, members) ← interfaceTail g
    return some (.interfaceDecl name generics bases members)
  if c.isWord "type" && leadsName c then return some (← aliasDeclaration g)
  if c.isWord "namespace" && leadsName c then
    skip
    skip
    let _ ← dottedNames
    namespaceBody g
    return some .other
  if c.isWord "module" && !ahead.token.afterLineBreak then
    if let .string _ := ahead.token.kind then
      skip
      skip
      namespaceBody g
      return some .other
    if ahead.isIdentifier then
      skip
      skip
      let _ ← dottedNames
      namespaceBody g
      return some .other
  if c.isWord "global" && ahead.isMark .braceOpen then
    skip
    namespaceBody g
    return some .other
  if ambient then fail
  return none

/-! ### Statements -/

/-- Reads an expression in parentheses that belongs to a statement. -/
def condition (g : Phrases) : Parser Unit := do
  expect .parenOpen
  let _ ← sequence g (g.expression true)
  expect .parenClose

/-- Reads what controls a `for` loop. -/
def forControl (g : Phrases) : Parser Unit := do
  let whole : Parser Unit := discard (sequence g (g.expression true))
  let _ ← eatWord "await"
  expect .parenOpen
  if !(← here).isMark .semicolon then
    if (← variableKeyword) || (← resourceKeyword) then discard (variableList g false)
    else discard (sequence g (g.expression false))
  if (← eatWord "of") || (← eatWord "in") then whole
  else
    expect .semicolon
    if !(← here).isMark .semicolon then whole
    expect .semicolon
    if !(← here).isMark .parenClose then whole
  expect .parenClose

/-- Reads the cases of a `switch`. -/
def switchCases (g : Phrases) : Parser Unit := do
  expect .braceOpen
  let _ ← many do
    let c ← here
    if c.isMark .braceClose then pure none
    else if ← eatWord "default" then
      expect .colon
      pure (some ())
    else if ← eatWord "case" then
      let _ ← sequence g (g.expression true)
      expect .colon
      pure (some ())
    else some <$> g.statement false
  expect .braceClose

/-- Reads what follows `try`. -/
def tryTail (g : Phrases) : Parser Unit := do
  block g
  let caught ← eatWord "catch"
  if caught then
    if ← eat .parenOpen then
      let _ ← bindingPattern g
      let _ ← after? .colon (g.type true)
      expect .parenClose
    block g
  if ← eatWord "finally" then block g
  else if !caught then fail

/-- Reads a statement that is no declaration. -/
def plainStatement (g : Phrases) : Parser Unit := do
  let c ← here
  let body : Parser Unit := g.statement false
  let value : Parser Unit := discard (sequence g (expression g true))
  let keyword : Option String := match c.token.kind with
    | .word name false => some name
    | _ => none
  match c.token.kind, keyword with
  | .mark .braceOpen, _ => block g
  | .mark .semicolon, _ => skip
  | _, some "if" =>
    skip
    condition g
    body
    if ← eatWord "else" then body
  | _, some "for" =>
    skip
    forControl g
    body
  | _, some "while" | _, some "with" =>
    skip
    condition g
    body
  | _, some "do" =>
    skip
    body
    expectWord "while"
    condition g
    let _ ← eat .semicolon
  | _, some "switch" =>
    skip
    condition g
    switchCases g
  | _, some "try" =>
    skip
    tryTail g
  | _, some "return" =>
    skip
    let c ← here
    if !(c.isMark .semicolon || c.endsStatement) then value
    semicolon
  | _, some "throw" =>
    skip
    value
    semicolon
  | _, some "break" | _, some "continue" =>
    skip
    let c ← here
    if c.isIdentifier && !c.token.afterLineBreak then skip
    semicolon
  | _, some "debugger" =>
    skip
    semicolon
  | _, _ =>
    if c.isIdentifier && c.next.isMark .colon then
      skip
      skip
      body
    else
      value
      semicolon

end TypedProps.Grammar
