import TypedProps.Text.Position

/-!
# `TypedProps.Script`: what a script declares

The syntax tree of a module, as far as the declaration of components depends on it: its imports and
exports, its types in full, and of its expressions only the forms in which a component can be
declared. Every other expression is `other`, every other statement an item without content.

Types and expressions carry an `Excerpt`, the place where they were written and the text that
stands there, so that later stages never go back to the source.
-/

set_option autoImplicit false

namespace TypedProps

/-- A name where it is declared. -/
structure Identifier where
  name : String
  span : Span
deriving DecidableEq, Repr, Inhabited

/-- The keywords that are types of their own. -/
inductive Keyword where
  | string | number | boolean | object | any | unknown | undefined | void
  | null | never | symbol | bigint | intrinsic
deriving DecidableEq, Repr, Inhabited

/-- What is written as a literal type. -/
inductive LiteralForm where
  | string | template | number | boolean | bigint
deriving DecidableEq, Repr, Inhabited

/-- A type name such as `A` or `A.B.C`. -/
structure EntityName where
  /-- The first identifier. -/
  first : String
  /-- The identifiers after dots. -/
  more : List String
  /-- The name as it is written. -/
  text : String
deriving DecidableEq, Repr, Inhabited

/-- The last identifier of a type name. -/
def EntityName.last (name : EntityName) : String := name.more.getLast?.getD name.first

mutual

/-- A type annotation. -/
inductive Ty where
  | keyword (loc : Excerpt) (word : Keyword)
  | literal (loc : Excerpt) (form : LiteralForm)
  | array (loc : Excerpt) (element : Ty)
  | tuple (loc : Excerpt) (elements : List Ty)
  /-- A function or constructor type. -/
  | function (loc : Excerpt)
  | paren (loc : Excerpt) (inner : Ty)
  /-- An element of a tuple that may be missing, `T?`. -/
  | optional (loc : Excerpt) (inner : Ty)
  /-- A type behind the operator `readonly`. -/
  | readonly (loc : Excerpt) (inner : Ty)
  | object (loc : Excerpt) (members : List Member)
  | mapped (loc : Excerpt)
  | union (loc : Excerpt) (members : List Ty)
  | intersection (loc : Excerpt) (members : List Ty)
  | reference (loc : Excerpt) (name : EntityName) (arguments : List Ty)
  /-- Every type that is computed from others: conditional, indexed, queried, inferred and so on. -/
  | other (loc : Excerpt)

/-- A member of an object type or an interface. Its name is missing when it is computed. -/
inductive Member where
  | property (loc : Excerpt) (docs : List String) (name : Option String) (optional : Bool)
      (type : Option Ty)
  | method (loc : Excerpt) (docs : List String) (name : Option String) (optional : Bool)
      (generics : List String) (parameters : List String) (result : Option Ty)
  /-- An accessor, a call or construct signature, or an index signature. -/
  | other (loc : Excerpt) (docs : List String)

end

instance : Inhabited Ty := ⟨.other default⟩
instance : Inhabited Member := ⟨.other default []⟩

/-- Where a type is written. -/
def Ty.loc : Ty → Excerpt
  | .keyword loc _ | .literal loc _ | .array loc _ | .tuple loc _ | .function loc | .paren loc _
  | .optional loc _ | .readonly loc _ | .object loc _ | .mapped loc | .union loc _
  | .intersection loc _ | .reference loc _ _ | .other loc => loc

/-- The source text of a type. -/
def Ty.text (type : Ty) : String := type.loc.text

/-- The stretch of source a type takes. -/
def Ty.span (type : Ty) : Span := type.loc.span

/-- Where a member begins and what is written there. -/
def Member.loc : Member → Excerpt
  | .property loc .. | .method loc .. | .other loc _ => loc

/-- The bodies of the documentation comments in front of a member. -/
def Member.docs : Member → List String
  | .property _ docs .. | .method _ docs .. | .other _ docs => docs

/-- A parameter or the left side of a variable declaration: its name, unless it takes its value
apart, and its type. -/
structure Pattern where
  name : Option String
  type : Option Ty
deriving Inhabited

mutual

/-- An expression, as far as component declarations depend on it. -/
inductive Expr where
  | name (loc : Span) (id : String)
  /-- Access with a dot to a member with a plain name. -/
  | member (loc : Span) (property : String)
  | call (loc : Span) (callee : Expr) (typeArguments : List Ty) (arguments : List Argument)
  /-- An arrow function or a function expression. -/
  | callback (loc : Span) (parameters : List Pattern)
  | object (loc : Span) (properties : List ObjectProperty)
  /-- An array, whose holes are no elements. -/
  | array (loc : Span) (elements : List Argument)
  | string (loc : Span) (value : String)
  | template (loc : Span)
  | paren (loc : Span) (inner : Expr)
  | other (loc : Span)

/-- An argument of a call or an element of an array. -/
inductive Argument where
  | plain (value : Expr)
  /-- An argument behind `...`. -/
  | spread (value : Expr)

/-- A property of an object. Its key is missing when it is computed. -/
inductive ObjectProperty where
  /-- `...` and an expression; the span is that of the dots. -/
  | spread (dots : Span)
  | keyValue (loc : Span) (key : Option String) (value : Expr)
  | method (loc : Span) (key : Option String) (parameters : List Pattern)
  /-- A property that only declares its key here: a shorthand or an accessor. -/
  | bare (loc : Span) (key : Option String)

end

instance : Inhabited Expr := ⟨.other default⟩
instance : Inhabited Argument := ⟨.plain default⟩

/-- The stretch of source an expression takes. -/
def Expr.loc : Expr → Span
  | .name loc _ | .member loc _ | .call loc .. | .callback loc _ | .object loc _ | .array loc _
  | .string loc _ | .template loc | .paren loc _ | .other loc => loc

/-- An expression without the parentheses around it. -/
def Expr.unparenthesized : Expr → Expr
  | .paren _ inner => inner.unparenthesized
  | e => e

/-- An entry of an `extends` list: the name of the base, unless it is qualified. -/
structure Base where
  loc : Span
  name : Option String
deriving DecidableEq, Repr, Inhabited

/-- A member of an enumeration and its initializer. -/
structure EnumMember where
  init : Option Expr
deriving Inhabited

/-- One variable of a declaration. -/
structure Variable where
  pattern : Pattern
  init : Option Expr
deriving Inhabited

/-- A declaration. -/
inductive Decl where
  | typeAlias (name : Identifier) (generics : List String) (body : Ty)
  | interfaceDecl (name : Identifier) (generics : List String) (bases : List Base)
      (members : List Member)
  | classDecl (name : Identifier)
  | enumDecl (name : Identifier) (members : List EnumMember)
  | variables (list : List Variable)
  /-- A function, a namespace, an ambient module. -/
  | other
deriving Inhabited

/-- What an import specifier binds. -/
inductive ImportedName where
  /-- One exported name; `default` for a default import. -/
  | named (name : String)
  /-- The module as a whole. -/
  | everything
deriving DecidableEq, Repr, Inhabited

/-- One binding of an import declaration. -/
structure ImportSpecifier where
  binding : Identifier
  imported : ImportedName
  typeOnly : Bool
deriving DecidableEq, Repr, Inhabited

/-- One name of an export list: what it is called inside and outside. -/
structure ExportSpecifier where
  name : String
  exported : String
  typeOnly : Bool
deriving DecidableEq, Repr, Inhabited

/-- What stands behind `export default`. -/
inductive DefaultExport where
  | interfaceDecl (name : Identifier) (generics : List String) (bases : List Base)
      (members : List Member)
  | classDecl (name : Option Identifier)
  | function
  | expression (value : Expr)
deriving Inhabited

/-- The content of a top-level item. -/
inductive ItemForm where
  | declaration (exported : Bool) (decl : Decl)
  | defaultExport (value : DefaultExport)
  | importDecl (typeOnly : Bool) (specifiers : List ImportSpecifier) (source : String)
  /-- A list of exports, of this module's own names or of those of `source`. -/
  | exportList (typeOnly : Bool) (specifiers : List ExportSpecifier) (source : Option String)
  | exportAll (typeOnly : Bool) (source : String)
  /-- All exports of `source` under one name. -/
  | exportAllAs (typeOnly : Bool) (name : String) (source : String)
  | other
deriving Inhabited

/-- A top-level item: where it starts, the documentation comments in front of it, its content. -/
structure Item where
  start : Nat
  docs : List String
  form : ItemForm
deriving Inhabited

end TypedProps
