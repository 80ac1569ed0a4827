import TypedProps.Decimal.Numeral
import TypedProps.Grammar.Types

/-!
# `TypedProps.Grammar.Expressions`: expressions

The rules for expressions. Which operator binds tighter is not recorded, because nothing depends on
it: operands and operators alternate. What an arrow function begins with also begins other
expressions; `behindBrackets` looks past its parameter list for the arrow, and where types make
that undecided the rules try one reading and then the other.
-/

set_option autoImplicit false

namespace TypedProps.Grammar

open TypedProps.Grammar.Parser
open TypedProps.Lexer

/-! ### Looking past brackets -/

/-- Which text an open bracket waits in. -/
inductive Nesting where
  | brackets
  /-- A template, which goes on behind the closing brace. -/
  | template
deriving DecidableEq

/-- Whether a regular expression, and not a division, begins at a slash that follows `previous`. -/
def mayPrecedeRegex : Token.Kind → Bool
  | .mark m => !([Mark.parenClose, .bracketClose, .braceClose].contains m)
  | .word name _ => isReserved name && name != "this" && name != "super"
  | _ => false

/-- One step of `behindBrackets`: the brackets still open, and the cursor behind the token or text
that was passed. -/
def passToken (opened : List Nesting) (previous : Token.Kind) (c : Cursor) :
    Option (List Nesting × Cursor) :=
  let templateText (outer : List Nesting) : Option (List Nesting × Cursor) :=
    match templateChunk? c.rest with
    | some (true, rest) => some (.template :: outer, c.skipTo false rest)
    | some (false, rest) => some (outer, c.skipTo false rest)
    | none => none
  match c.token.kind with
  | .endOfText => none
  | .mark .parenOpen | .mark .bracketOpen | .mark .braceOpen => some (.brackets :: opened, c.next)
  | .mark .backquote => templateText opened
  | .mark .braceClose =>
    match opened with
    | .template :: outer => templateText outer
    | _ => some (opened.tail, c.next)
  | .mark .parenClose | .mark .bracketClose => some (opened.tail, c.next)
  | .mark .slash =>
    match mayPrecedeRegex previous, regexRest? false c.rest with
    | true, some rest => some (opened, c.skipTo true rest)
    | _, _ => some (opened, c.next)
  | _ => some (opened, c.next)

/-- The cursor behind the bracket that closes the one at `c`. -/
def behindBrackets (opened : List Nesting) (previous : Token.Kind) (c : Cursor) : Option Cursor :=
  match passToken opened previous c with
  | none => none
  | some ([], after) => some after
  | some (stillOpen, after) =>
    if after.size < c.size then behindBrackets stillOpen c.token.kind after else none
termination_by c.size

/-- Whether an arrow stands at the cursor, on the line of what precedes it. -/
def atArrow (c : Cursor) : Bool := c.isMark .arrow && !c.token.afterLineBreak

/-- What the text behind a parenthesis says about an arrow function there. -/
inductive ArrowHint where
  | none
  | certain
  /-- A colon follows, which may begin the type of the result. -/
  | possible
deriving DecidableEq

/-- Looks behind the parenthesis at `c` for an arrow. -/
def arrowHint (c : Cursor) : ArrowHint :=
  match behindBrackets [] (.mark .comma) c with
  | some after =>
    if atArrow after then .certain else if after.isMark .colon then .possible else .none
  | none => .none

/-! ### Functions and classes -/

/-- Reads a block of statements. -/
def block (g : Phrases) : Parser Unit := do
  expect .braceOpen
  let _ ← many do
    if (← here).isMark .braceClose then pure none else some <$> g.statement false
  expect .braceClose

/-- Reads a function from its parameters on. The body may be missing where a declaration is
enough. -/
def functionTail (g : Phrases) (needsBody : Bool) : Parser (List Pattern) := do
  let s ← signature g true
  if needsBody || (← here).isMark .braceOpen then block g else semicolon
  pure (s.parameters.map (·.pattern))

/-- Reads a function expression from the keyword on. -/
def functionExpression (g : Phrases) : Parser (List Pattern) := do
  expectWord "function"
  let _ ← eat .star
  if (← here).isIdentifier then skip
  functionTail g true

/-- Reads an arrow function from its arrow on. -/
def arrowTail (g : Phrases) (allowIn : Bool) : Parser Unit := do
  if !atArrow (← here) then fail
  skip
  if (← here).isMark .braceOpen then block g else discard (g.expression allowIn)

/-- Reads an arrow function whose parameters stand in parentheses. -/
def arrowFunction (g : Phrases) (allowIn : Bool) : Parser (List Pattern) := do
  let s ← signature g true
  arrowTail g allowIn
  pure (s.parameters.map (·.pattern))

/-- Words that may stand in front of a class member. -/
def memberModifiers : List String :=
  ["declare", "public", "private", "protected", "static", "abstract", "override", "readonly",
   "accessor", "async", "get", "set"]

/-- Reads a member of a class. -/
def classMember (g : Phrases) : Parser Unit := do
  let c ← here
  if c.isWord "static" && c.next.isMark .braceOpen then
    skip
    block g
    return
  let _ ← many do
    let c ← here
    if c.isMark .star || memberModifiers.any (isModifier · c) then skip; pure (some ())
    else pure none
  if startsIndexSignature (← here) then
    indexSignature g
    return
  let _ ← propertyKey id g
  if !(← eat .question) then discard (eat .bang)
  let c ← here
  if c.isMark .parenOpen || c.isMark .less then discard (functionTail g false)
  else
    let _ ← after? .colon (g.type true)
    let _ ← after? .equal (g.expression true)
    semicolon

/-- Reads the body of a class. -/
def classBody (g : Phrases) : Parser Unit := do
  expect .braceOpen
  let _ ← many do
    let c ← here
    if c.isMark .braceClose then pure none
    else if c.isMark .semicolon then skip; pure (some ())
    else some <$> classMember g
  expect .braceClose

/-! ### Markup -/

/-- Reads a name in a markup tag. -/
def markupNameAt : Parser Unit := do
  let c ← here
  if c.word?.isNone then fail
  set (c.skipTo true (markupName c.front))

/-- Reads the name of a markup element. -/
def markupElementName : Parser Unit := do
  markupNameAt
  let _ ← many do
    if (← eat .dot) || (← eat .colon) then some <$> markupNameAt else pure none

/-- Reads an expression in braces, or nothing in braces. Stays in front of the closing brace. -/
def markupBraces (sequence : Parser Unit) : Parser Unit := do
  expect .braceOpen
  if !(← here).isMark .braceClose then
    let _ ← eat .ellipsis
    sequence
    if !(← here).isMark .braceClose then fail

/-- Reads an attribute of a markup tag. -/
def markupAttribute (g : Phrases) : Parser Unit := do
  let c ← here
  if c.isMark .braceOpen then
    skip
    expect .ellipsis
    let _ ← g.expression true
    expect .braceClose
  else
    markupNameAt
    if ← eat .colon then markupNameAt
    if ← eat .equal then
      let c ← here
      match c.front.head? with
      | some '\x22' | some '\x27' =>
        match markupString? c.front with
        | some rest => set (c.skipTo true rest)
        | none => fail
      | some '<' =>
        g.element
        skip
      | _ =>
        markupBraces (discard (g.expression true))
        skip

/-- Reads the text and elements between two tags, and the closing tag up to its last mark. -/
def markupChildren (g : Phrases) : Parser Unit := do
  let _ ← loop (fun _ => do
    let c ← here
    set (c.skipTo true (markupText c.rest))
    let c ← here
    if c.isMark .braceOpen then
      markupBraces (discard (g.expression true))
      pure ((), true)
    else if c.isMark .less then
      if c.next.isMark .slash then
        skip
        skip
        if !(← here).isMark .greater then markupElementName
        if (← here).isMark .greater then pure ((), false) else fail
      else
        g.element
        pure ((), true)
    else fail) ()

/-- Reads a markup element up to its last mark. -/
def element (g : Phrases) : Parser Unit := do
  expect .less
  if (← here).isMark .greater then markupChildren g
  else
    markupElementName
    if (← here).isMark .less then discard (typeArguments g)
    let _ ← many do
      let c ← here
      if c.isMark .slash || c.isMark .greater then pure none else some <$> markupAttribute g
    if ← eat .slash then
      if !(← here).isMark .greater then fail
    else markupChildren g

/-! ### Operands -/

/-- Reads an element of a list of arguments. -/
def argument (g : Phrases) : Parser Argument := do
  if ← eat .ellipsis then Argument.spread <$> g.expression true
  else Argument.plain <$> g.expression true

/-- Reads the arguments of a call with their parentheses. -/
def arguments (g : Phrases) : Parser (List Argument) := do
  expect .parenOpen
  commaList (argument g) .parenClose

/-- Reads expressions joined by commas. -/
def sequence (g : Phrases) (first : Parser Expr) : Parser Expr := do
  let start ← here
  let e ← first
  if !(← here).isMark .comma then return e
  let _ ← many do if ← eat .comma then some <$> g.expression true else pure none
  return .other (← spanFrom start)

/-- Reads the elements of an array; holes are left out. -/
def arrayElements (g : Phrases) : Parser (List Argument) := do
  expect .bracketOpen
  let found ← many do
    let c ← here
    if c.isMark .bracketClose then pure none
    else if c.isMark .comma then skip; pure (some none)
    else
      let a ← argument g
      if !(← here).isMark .bracketClose then expect .comma
      pure (some (some a))
  expect .bracketClose
  pure (found.filterMap id)

/-- Reads a property of an object. -/
def objectProperty (g : Phrases) : Parser ObjectProperty := do
  let start ← here
  let key : Parser (Option String) := propertyKey Decimal.numeralText g
  let method (key : Option String) : Parser ObjectProperty := do
    let params ← functionTail g true
    pure (.method (← spanFrom start) key params)
  if ← eat .ellipsis then
    let _ ← g.expression true
    return .spread ⟨start.token.start, start.token.stop⟩
  let ahead := start.next
  let endsKey := [Mark.parenOpen, .comma, .colon, .braceClose, .equal, .less].any ahead.isMark
  if (start.isWord "get" || start.isWord "set") && !endsKey then
    skip
    let name ← key
    let _ ← functionTail g true
    return .bare (← spanFrom start) name
  if start.isWord "async" && !endsKey && !ahead.token.afterLineBreak then
    skip
    let _ ← eat .star
    method (← key)
  else if ← eat .star then method (← key)
  else
    let name ← key
    let c ← here
    if c.isMark .parenOpen || c.isMark .less then method name
    else if ← eat .colon then
      let value ← g.expression true
      return .keyValue (← spanFrom start) name value
    else if start.isIdentifier then
      let _ ← after? .equal (g.expression true)
      return .bare (← spanFrom start) name
    else if start.word?.isSome then fun _ => .error ⟨start.token.start⟩
    else fail

/-- Reads a regular expression at its first slash. -/
def regex : Parser Unit := do
  let c ← here
  let body := if c.isMark .slashEqual then '=' :: c.rest else c.rest
  match regexRest? false body with
  | some rest => set (c.skipTo true rest)
  | none => fail

/-- Reads a class from behind its name on. -/
def classTail (g : Phrases) : Parser Unit := do
  let _ ← typeParameters g
  if ← eatWord "extends" then
    let _ ← g.operand
    let _ ← typeArguments? g
  if ← eatWord "implements" then
    let _ ← loop (fun _ => do
      let _ ← typeReference g
      pure ((), ← eat .comma)) ()
  classBody g

/-- Reads a class expression from its keyword on. -/
def classExpression (g : Phrases) : Parser Unit := do
  expectWord "class"
  if (← here).isIdentifier && !(← here).isWord "implements" then skip
  classTail g

/-- Whether type arguments may end an expression in front of the cursor. -/
def mayFollowTypeArguments (c : Cursor) : Bool :=
  match c.token.kind with
  | .mark m =>
    !([Mark.less, .greater, .plus, .minus].contains m)
      && (c.token.afterLineBreak
        || !([Mark.bang, .tilde, .step, .braceOpen, .bracketOpen].contains m))
  | .endOfText => true
  | .word name _ => c.token.afterLineBreak || ["as", "satisfies", "in", "instanceof"].contains name
  | _ => c.token.afterLineBreak

/-- Reads type arguments and what they are applied to. -/
def typeApplication (g : Phrases) (start : Cursor) (callee : Expr) (calls : Bool) :
    Parser Expr := do
  let types ← typeArguments g
  let c ← here
  if c.isMark .parenOpen && calls then
    let args ← arguments g
    pure (.call (← spanFrom start) callee types args)
  else if c.isMark .backquote then
    template (discard (g.expression true))
    pure (.other (← spanFrom start))
  else if mayFollowTypeArguments c then pure (.other (← spanFrom start))
  else fail

/-- An operand while its selectors are read. Behind `?.` all selectors make up one chain, which is
neither a plain member nor a plain call. -/
structure Selected where
  value : Expr
  chained : Bool

/-- Reads one selector behind an operand: a member, an index, a call, a template, type arguments or
an assertion that it is not null. `calls` says whether calls are read here. -/
def selector (g : Phrases) (calls : Bool) (start : Cursor) (o : Selected) :
    Parser (Selected × Bool) := do
  let c ← here
  let goOn (value : Expr) : Parser (Selected × Bool) := do
    let value ← (do if o.chained then pure (.other (← spanFrom start)) else pure value)
    pure (⟨value, o.chained⟩, true)
  let other : Parser (Selected × Bool) := do goOn (.other (← spanFrom start))
  let index : Parser Unit := do
    expect .bracketOpen
    let _ ← sequence g (g.expression true)
    expect .bracketClose
  match c.token.kind with
  | .mark .dot =>
    skip
    if (← here).token.kind == .privateName then
      skip
      other
    else
      let name ← word
      goOn (.member (← spanFrom start) name)
  | .mark .questionDot =>
    skip
    let c ← here
    if c.isMark .bracketOpen then index
    else if c.isMark .less then
      let _ ← typeArguments g
      let _ ← arguments g
    else if c.isMark .parenOpen then discard (arguments g)
    else if c.isMark .backquote then template (discard (g.expression true))
    else if c.token.kind == .privateName then skip
    else discard word
    pure (⟨.other (← spanFrom start), true⟩, true)
  | .mark .bracketOpen =>
    index
    other
  | .mark .parenOpen =>
    if calls then
      let args ← arguments g
      goOn (.call (← spanFrom start) o.value [] args)
    else pure (o, false)
  | .mark .backquote =>
    template (discard (g.expression true))
    other
  | .mark .bang =>
    if c.token.afterLineBreak then pure (o, false)
    else
      skip
      other
  | .mark .less =>
    if calls then
      match ← attempt (typeApplication g start o.value calls) with
      | some applied => goOn applied
      | none => pure (o, false)
    else pure (o, false)
  | _ => pure (o, false)

/-- Reads the selectors behind an operand. -/
def selectors (g : Phrases) (calls : Bool) (start : Cursor) (e : Expr) : Parser Expr := do
  let o ← loop (selector g calls start) ⟨e, false⟩
  pure o.value

/-- Reads an operand without selectors; `new` is read elsewhere. -/
def primary (g : Phrases) : Parser Expr := do
  let start ← here
  let other : Parser Expr := do pure (.other (← spanFrom start))
  match start.token.kind with
  | .string value =>
    skip
    pure (.string (← spanFrom start) value)
  | .number _ | .bigint | .privateName => skip; other
  | .mark .parenOpen =>
    skip
    let inner ← sequence g (g.expression true)
    expect .parenClose
    pure (.paren (← spanFrom start) inner)
  | .mark .bracketOpen =>
    let elements ← arrayElements g
    pure (.array (← spanFrom start) elements)
  | .mark .braceOpen =>
    skip
    let properties ← commaList (objectProperty g) .braceClose
    pure (.object (← spanFrom start) properties)
  | .mark .backquote =>
    template (discard (g.expression true))
    pure (.template (← spanFrom start))
  | .mark .slash | .mark .slashEqual => regex; other
  | .mark .less =>
    if g.markup then
      element g
      skip
      other
    else fail
  | .word name escaped =>
    if !escaped then
      if name == "function" then
        let params ← functionExpression g
        return .callback (← spanFrom start) params
      if name == "async" && start.next.isWord "function" && !start.next.token.afterLineBreak then
        skip
        let params ← functionExpression g
        return .callback (← spanFrom start) params
      if name == "class" then
        classExpression g
        return ← other
      if name == "super" then
        skip
        let (o, _) ← selector g true start ⟨.other (← spanFrom start), false⟩
        return .other o.value.loc
      if ["this", "null", "true", "false"].contains name then
        skip
        return ← other
      if name == "import" then
        skip
        if ← eat .dot then discard word
        return ← other
      if isReserved name then fail
    skip
    pure (.name (← spanFrom start) name)
  | _ => fail

/-- Reads an operand with its selectors. -/
def operand (g : Phrases) : Parser Expr := do
  let start ← here
  if start.isWord "new" then
    let news ← many do
      let c ← here
      if c.isWord "new" && !c.next.isMark .dot then skip; pure (some ()) else pure none
    let c ← here
    let callee ← (do
      if ← eatWord "new" then
        -- `new.target`, itself behind any number of `new`
        skip
        discard word
        selectors g false c (.other (← spanFrom c))
      else selectors g false c (← primary g))
    if news.isEmpty then return ← selectors g true start callee
    let _ ← news.mapM fun _ => do
      let _ ← attempt (typeArguments g)
      if (← here).isMark .parenOpen then discard (arguments g)
    selectors g true start (.other (← spanFrom start))
  else selectors g true start (← primary g)

/-! ### Operators -/

/-- Reads an operator that stands in front of its operand, if there is one. -/
def prefixOperator (g : Phrases) : Parser (Option Unit) := do
  let c ← here
  if [Mark.plus, .minus, .bang, .tilde, .step].any c.isMark
      || ["typeof", "void", "delete", "await"].any c.isWord then
    skip
    pure (some ())
  else if c.isMark .less && !g.markup then
    skip
    let _ ← g.type true
    expect .greater
    pure (some ())
  else pure none

/-- Reads an operand with the operators in front of and behind it. -/
def unary (g : Phrases) : Parser Expr := do
  let start ← here
  let operators ← many (prefixOperator g)
  let e ← operand g
  let c ← here
  let steps := c.isMark .step && !c.token.afterLineBreak
  if steps then skip
  if operators.isEmpty && !steps then pure e else pure (.other (← spanFrom start))

/-- Reads an operator with an operand on each side. Angle brackets join with what follows them
directly; with an equal sign they may assign. -/
def binaryOperator (g : Phrases) (allowIn : Bool) : Parser Bool := do
  let c ← here
  let joined := [Mark.plus, .minus, .star, .slash, .ampersand, .bar, .binary]
  if joined.any c.isMark || c.isWord "instanceof" || (allowIn && c.isWord "in") then
    skip
    discard (unary g)
    pure true
  else if (c.isWord "as" || c.isWord "satisfies") && !c.token.afterLineBreak then
    skip
    if (← here).isWord "const" then skip else discard (g.type true)
    pure true
  else if c.isMark .less || c.isMark .greater then
    let angle := if c.isMark .less then '<' else '>'
    let behind := c.front.dropWhile (· == angle)
    let shift := c.front.length - behind.length ≥ 2
    match behind with
    | '=' :: rest =>
      if shift then pure false
      else
        set (c.skipTo false rest)
        discard (unary g)
        pure true
    | _ =>
      set (c.skipTo false behind)
      discard (unary g)
      pure true
  else pure false

/-- Whether an assignment operator stands here; steps over it. -/
def assignmentOperator : Parser Bool := do
  let c ← here
  if [Mark.equal, .compound, .slashEqual].any c.isMark then
    skip
    pure true
  else if c.isMark .less || c.isMark .greater then
    match c.front.dropWhile fun a => a == '<' || a == '>' with
    | '=' :: rest =>
      set (c.skipTo false rest)
      pure true
    | _ => pure false
  else pure false

/-- Reads operands joined by operators, with a choice behind a question mark. -/
def conditionalExpression (g : Phrases) (allowIn : Bool) : Parser Expr := do
  let start ← here
  let e ← unary g
  let operators ← many do
    if ← binaryOperator g allowIn then pure (some ()) else pure none
  if ← eat .question then
    let _ ← g.expression true
    expect .colon
    let _ ← g.expression allowIn
    pure (.other (← spanFrom start))
  else if operators.isEmpty then pure e
  else pure (.other (← spanFrom start))

/-- Reads an arrow function, if one stands here. -/
def arrow? (g : Phrases) (allowIn : Bool) : Parser (Option Expr) := do
  let start ← here
  let inParens : Parser (Option (List Pattern)) := do
    let c ← here
    match arrowHint c with
    | .certain => some <$> arrowFunction g allowIn
    | .possible => attempt (arrowFunction g allowIn)
    | .none => pure none
  let generic : Parser (Option (List Pattern)) := attempt (arrowFunction g allowIn)
  let single : Parser (Option (List Pattern)) := do
    let name ← identifier
    arrowTail g allowIn
    pure (some [⟨some name.name, none⟩])
  let found ← (do
    if start.isMark .parenOpen then inParens
    else if start.isMark .less then
      let named := start.next
      let generics := named.next
      if !g.markup || generics.isMark .comma || generics.isWord "extends" then generic
      else pure none
    else if start.isWord "async" && !start.next.token.afterLineBreak then
      let ahead := start.next
      if ahead.isMark .parenOpen then
        match arrowHint ahead with
        | .certain => skip; some <$> arrowFunction g allowIn
        | .possible => attempt do skip; arrowFunction g allowIn
        | .none => pure none
      else if ahead.isMark .less then attempt do skip; arrowFunction g allowIn
      else if ahead.isIdentifier && atArrow ahead.next then
        skip
        single
      else if atArrow ahead then single
      else pure none
    else if start.isIdentifier && atArrow start.next then single
    else pure none)
  match found with
  | some params => pure (some (.callback (← spanFrom start) params))
  | none => pure none

/-- Reads `yield` and what it yields. -/
def yieldExpression (g : Phrases) (allowIn : Bool) : Parser Expr := do
  let start ← here
  expectWord "yield"
  let star ← eat .star
  let c ← here
  let ends := [Mark.parenClose, .bracketClose, .braceClose, .comma, .semicolon, .colon].any c.isMark
    || c.token.afterLineBreak || c.token.kind == .endOfText
  if star || !ends then discard (g.expression allowIn)
  pure (.other (← spanFrom start))

/-- Reads an expression without a comma at its top. -/
def expression (g : Phrases) (allowIn : Bool) : Parser Expr := do
  let start ← here
  if start.isWord "yield" then return ← yieldExpression g allowIn
  if let some arrow ← arrow? g allowIn then return arrow
  let e ← conditionalExpression g allowIn
  if ← assignmentOperator then
    let _ ← g.expression allowIn
    return .other (← spanFrom start)
  return e

end TypedProps.Grammar
