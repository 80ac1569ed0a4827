import TypedProps.Grammar.Statements

/-!
# `TypedProps.Grammar.Modules`: imports, exports and whole modules

The rules for top-level items, and `parseModule`, which reads a whole script.
-/

set_option autoImplicit false

namespace TypedProps.Grammar

open TypedProps.Grammar.Parser

/-! ### Import and export lists -/

/-- Reads a name in an import or export list: a word or a string. -/
def listedName : Parser Identifier := do
  let c ← here
  let name ← match c.token.kind with
    | .word name _ => pure name
    | .string value => pure value
    | _ => fail
  skip
  pure ⟨name, c.token.start, c.token.stop⟩

/-- Reads an entry of an import or export list: whether it is marked `type`, its name, and its name
behind `as`. The words `type` and `as` may themselves be names, which the words behind them
decide. -/
def listEntry : Parser (Bool × Identifier × Option Identifier) := do
  let c ← here
  let ends := fun (c : Cursor) => c.isMark .comma || c.isMark .braceClose
  let renamed : Parser (Option Identifier) := do
    if ← eatWord "as" then some <$> listedName else pure none
  let second := c.next
  let third := second.next
  if !c.isWord "type" || ends second then
    pure (false, ← listedName, ← renamed)
  else if !second.isWord "as" then
    skip
    pure (true, ← listedName, ← renamed)
  else if ends third then
    -- the name `as`, marked
    skip
    pure (true, ← listedName, none)
  else if third.isWord "as" && !ends third.next then
    -- the name `as`, marked and renamed
    skip
    pure (true, ← listedName, ← renamed)
  else
    -- the name `type`, renamed
    pure (false, ← listedName, ← renamed)

/-- Reads one entry of an import list. What it binds has to be an identifier. -/
def importSpecifier : Parser ImportSpecifier := do
  let (typeOnly, name, renamed) ← listEntry
  let binding := renamed.getD name
  if isReserved binding.name then fun _ => .error ⟨binding.span.start⟩
  else pure ⟨binding, .named name.name, typeOnly⟩

/-- Reads one entry of an export list. -/
def exportSpecifier : Parser ExportSpecifier := do
  let (typeOnly, name, renamed) ← listEntry
  pure ⟨name.name, (renamed.getD name).name, typeOnly⟩

/-- Reads a module specifier. -/
def moduleSource : Parser String := do
  match (← here).token.kind with
  | .string value => skip; pure value
  | _ => fail

/-- Reads a module specifier with its attributes, to the end of the item. -/
def sourceTail (g : Phrases) : Parser String := do
  let source ← moduleSource
  let c ← here
  if (c.isWord "with" || c.isWord "assert") && c.next.isMark .braceOpen then
    skip
    skip
    let _ ← commaList (objectProperty g) .braceClose
  semicolon
  pure source

/-! ### Imports -/

/-- Reads what stands to the right of `import X =`. -/
def importEqualsTail : Parser Unit := do
  expect .equal
  let c ← here
  if c.isWord "require" && c.next.isMark .parenOpen then
    skip
    skip
    let _ ← moduleSource
    expect .parenClose
  else discard entityName
  semicolon

/-- Whether `type` at the cursor marks a whole import rather than being a name it binds. -/
def marksImport (c : Cursor) : Bool :=
  let ahead := c.next
  c.isWord "type" &&
    (ahead.isMark .braceOpen || ahead.isMark .star
      || (ahead.isIdentifier && (!ahead.isWord "from" || ahead.next.isWord "from"
        || ahead.next.isMark .equal)))

/-- Reads the bindings of an import that are no default import. -/
def importBindings : Parser (List ImportSpecifier) := do
  if ← eat .star then
    expectWord "as"
    let binding ← identifier
    pure [⟨binding, .everything, false⟩]
  else
    expect .braceOpen
    commaList importSpecifier .braceClose

/-- Reads an import declaration. -/
def importItem (g : Phrases) : Parser ItemForm := do
  expectWord "import"
  let c ← here
  if let .string _ := c.token.kind then
    return .importDecl false [] (← sourceTail g)
  let typeOnly := marksImport c
  if typeOnly then skip
  let c ← here
  let specifiers ← (do
    if c.isMark .star || c.isMark .braceOpen then importBindings
    else
      let binding ← identifier
      let whole : ImportSpecifier := ⟨binding, .named "default", false⟩
      if ← eat .comma then pure (whole :: (← importBindings)) else pure [whole])
  if (← here).isMark .equal && specifiers.length == 1 && c.isIdentifier then
    importEqualsTail
    return .other
  expectWord "from"
  return .importDecl typeOnly specifiers (← sourceTail g)

/-! ### Exports -/

/-- Reads what follows `export default`. -/
def defaultExport (g : Phrases) : Parser DefaultExport := do
  let c ← here
  let ahead := c.next
  if c.isWord "function"
      || (c.isWord "async" && ahead.isWord "function" && !ahead.token.afterLineBreak) then
    functionDeclaration g false
    pure .function
  else if c.isWord "class" || (c.isWord "abstract" && ahead.isWord "class") then
    let _ ← eatWord "abstract"
    expectWord "class"
    let c ← here
    let name ← (do
      if c.isIdentifier && !c.isWord "implements" then some <$> identifier else pure none)
    classTail g
    pure (.classDecl name)
  else if c.isWord "interface" && leadsName c then
    skip
    let name ← identifier
    let (generics, bases, members) ← interfaceTail g
    pure (.interfaceDecl name generics bases members)
  else
    let value ← expression g true
    semicolon
    pure (.expression value)

/-- Reads an export from behind its keyword on. -/
def exportTail (g : Phrases) : Parser ItemForm := do
  let c ← here
  let typeOnly := c.isWord "type" && (c.next.isMark .braceOpen || c.next.isMark .star)
  if typeOnly then skip
  if ← eat .star then
    let name ← (do if ← eatWord "as" then some <$> listedName else pure none)
    expectWord "from"
    let source ← sourceTail g
    match name with
    | some name => return .exportAllAs typeOnly name.name source
    | none => return .exportAll typeOnly source
  if ← eat .braceOpen then
    let specifiers ← commaList exportSpecifier .braceClose
    if ← eatWord "from" then return .exportList typeOnly specifiers (some (← sourceTail g))
    semicolon
    return .exportList typeOnly specifiers none
  if ← eatWord "default" then return .defaultExport (← defaultExport g)
  if ← eat .equal then
    let _ ← sequence g (expression g true)
    semicolon
    return .other
  if c.isWord "as" && c.next.isWord "namespace" then
    skip
    skip
    let _ ← identifier
    semicolon
    return .other
  if ← eatWord "import" then
    if marksImport (← here) then skip
    let _ ← identifier
    importEqualsTail
    return .other
  match ← declaration? g with
  | some decl => return .declaration true decl
  | none => fail

/-! ### Items and modules -/

/-- Reads a statement that is neither import nor export. -/
def statement (g : Phrases) : Parser ItemForm := do
  match ← declaration? g with
  | some decl => pure (.declaration false decl)
  | none =>
    plainStatement g
    pure .other

/-- Reads a top-level item. -/
def item (g : Phrases) : Parser Item := do
  let c ← here
  let ahead := c.next
  let form ←
    if c.isWord "import" && !ahead.isMark .parenOpen && !ahead.isMark .dot then importItem g
    else if c.isWord "export" then (do skip; exportTail g)
    else statement g
  pure ⟨c.token.start, c.token.docs, form⟩

/-- The rules of the language over phrases that are nested more deeply. -/
def rules (g : Phrases) : Phrases where
  markup := g.markup
  type := type g
  pattern := bindingPattern g
  expression := expression g
  operand := operand g
  element := element g
  statement := fun exports => if exports then discard (item g) else discard (statement g)

/-- Reads a whole module; `markup` says whether it may hold markup. -/
def parseModule (markup : Bool) (script : List Char) : Except Failure (List Item) :=
  let start := Cursor.ofScript script
  let g := knot markup rules (start.size + 1)
  (·.1) <$> many (do
    if (← here).token.kind == .endOfText then pure none else some <$> item g) start

end TypedProps.Grammar
