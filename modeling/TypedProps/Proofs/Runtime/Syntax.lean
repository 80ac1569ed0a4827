import TypedProps.Doc
import TypedProps.Text.Quoted

/-!
# `TypedProps.Proofs.Runtime.Syntax`: the statements a patch is written in

The part of the script language that patches use, as a syntax tree with its layout: blocks are
indented by two blanks, an object has a line for each of its properties, and type assertions stand
behind the expressions that they are about.
-/

set_option autoImplicit false

namespace TypedProps.Runtime

open TypedProps.Text

mutual

/-- An expression. -/
inductive Expression where
  | null
  | boolean (value : Bool)
  | string (value : String)
  /-- A name in scope, or a path of names with dots between them. -/
  | name (text : String)
  /-- An expression of which only the text is known. -/
  | source (text : String)
  | member (object : Expression) (key : String)
  | index (object key : Expression)
  | array (elements : List Expression)
  | object (fields : List Field)
  /-- A function of one parameter. -/
  | arrow (parameter : String) (result : Expression)
  | call (callee : Expression) (arguments : List Expression)
  /-- A comparison by `===`. -/
  | equals (left right : Expression)
  /-- An expression with a type assertion, which means nothing at run time. -/
  | asserted (inner : Expression) (type : String)

/-- A property of an object expression. -/
inductive Field where
  | mk (key : String) (value : Expression)

end

/-- A statement. -/
inductive Statement where
  | comment (lines : List String)
  | evaluate (e : Expression)
  | assign (target value : Expression)
  | branch (condition : Expression) (body otherwise : List Statement)

/-! ### Layout -/

mutual

/-- An expression that begins on a line with some indentation. -/
def Expression.text (indent : String) : Expression → String
  | .null => "null"
  | .boolean value => if value then "true" else "false"
  | .string value => quote value
  | .name text | .source text => text
  | .member object key => object.text indent ++ "." ++ key
  | .index object key => object.text indent ++ "[" ++ key.text indent ++ "]"
  | .array elements => "[" ++ ", ".intercalate (textsOf indent elements) ++ "]"
  | .object [] => "\x7b\x7d"
  | .object (field :: fields) =>
    "\x7b\n" ++ fieldsText (indent ++ "  ") (field :: fields) ++ indent ++ "\x7d"
  | .arrow parameter result => "(" ++ parameter ++ ") => " ++ result.text indent
  | .call callee arguments =>
    callee.text indent ++ "(" ++ ", ".intercalate (textsOf indent arguments) ++ ")"
  | .equals left right => left.text indent ++ " === " ++ right.text indent
  | .asserted inner type => inner.text indent ++ " as " ++ type

/-- Expressions one by one. -/
def textsOf (indent : String) : List Expression → List String
  | [] => []
  | e :: rest => e.text indent :: textsOf indent rest

/-- The lines of the properties of an object. -/
def fieldsText (indent : String) : List Field → String
  | [] => ""
  | .mk key value :: rest =>
    indent ++ key ++ ": " ++ value.text indent ++ ",\n" ++ fieldsText indent rest

end

mutual

/-- A statement without the indentation in front of it and the end of its last line. -/
def Statement.inner (indent : String) : Statement → String
  | .comment lines => Doc.block lines
  | .evaluate e => e.text indent ++ ";"
  | .assign target value => target.text indent ++ " = " ++ value.text indent ++ ";"
  | .branch condition body otherwise =>
    "if (" ++ condition.text indent ++ ") \x7b\n" ++ scriptText (indent ++ "  ") body ++ indent
      ++ "\x7d" ++ otherwiseText indent otherwise

/-- What follows if a condition does not hold. -/
def otherwiseText (indent : String) : List Statement → String
  | [] => ""
  | [.branch condition body otherwise] =>
    " else " ++ (Statement.branch condition body otherwise).inner indent
  | statement :: rest =>
    " else \x7b\n" ++ scriptText (indent ++ "  ") (statement :: rest) ++ indent ++ "\x7d"

/-- The lines of some statements. A comment comes with the end of its line. -/
def scriptText (indent : String) : List Statement → String
  | [] => ""
  | .comment lines :: rest => Doc.block lines ++ scriptText indent rest
  | statement :: rest => indent ++ statement.inner indent ++ "\n" ++ scriptText indent rest

end

end TypedProps.Runtime
