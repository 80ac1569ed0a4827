import TypedProps.Text.Blank

/-!
# `TypedProps.Doc`: documentation comments

A documentation comment is cleaned to the lines a reader wrote: the stars that decorate the lines,
blanks around them and empty lines go. `block` writes lines as a comment again, and breaks up every
end mark inside them.
-/

set_option autoImplicit false

namespace TypedProps.Doc

open TypedProps.Text

/-- Removes the stars at the front of text. -/
def dropStars (cs : List Char) : List Char := cs.dropWhile (· == '*')

/-- Cleans one line. -/
def cleanLine (line : List Char) : List Char :=
  trim isWhiteSpace (dropStars (trim isWhiteSpace line))

/-- The lines of a documentation comment, given the text between its outer marks. -/
def cleanChars (body : List Char) : List (List Char) :=
  ((lines (dropStars body)).map cleanLine).filter (!·.isEmpty)

/-- The lines of a documentation comment. -/
def clean (body : String) : List String := (cleanChars body.toList).map String.ofList

/-- The lines of several comments, one after the other. -/
def cleanAll (bodies : List String) : List String := bodies.flatMap clean

/-- Puts a backslash into every `*/`, so that text cannot end the comment it stands in. -/
def escapeEnd : List Char → List Char
  | '*' :: '/' :: rest => '*' :: '\\' :: '/' :: escapeEnd rest
  | c :: rest => c :: escapeEnd rest
  | [] => []

/-- The text between the outer marks of the comment that holds some lines, in characters. -/
def bodyChars (docs : List (List Char)) : List Char :=
  '*' :: '\n' :: (docs.flatMap fun line => ' ' :: '*' :: ' ' :: (escapeEnd line ++ ['\n'])) ++ [' ']

/-- The comment that holds some lines. -/
def block (docs : List String) : String :=
  "/*" ++ String.ofList (bodyChars (docs.map String.toList)) ++ "*/\n"

end TypedProps.Doc
