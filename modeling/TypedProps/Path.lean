/-!
# `TypedProps.Path`: paths, their components and their normal form

A path is text in which slashes separate names. Its components leave out empty names and, except at
the front of a relative path, the name `.`; comparing, ordering and stripping prefixes work on
components. The normal form also resolves `..`, as far as there is a name to step back over.
-/

set_option autoImplicit false

namespace TypedProps.Path

/-- Cuts text at every slash. -/
def splitSlash : List Char → List (List Char)
  | [] => [[]]
  | c :: cs =>
    if c == '/' then [] :: splitSlash cs
    else match splitSlash cs with
      | [] => [[c]]
      | name :: rest => (c :: name) :: rest

/-- The text between the slashes of a path, empty text included. -/
def segments (path : String) : List String := (splitSlash path.toList).map String.ofList

/-- Whether a path begins at the root. -/
def isAbsolute (path : String) : Bool := path.toList.head? == some '/'

/-- Whether text begins with other text. -/
def hasStart (start text : String) : Bool := start.toList.isPrefixOf text.toList

/-- Whether text ends with other text. -/
def hasEnd (ending text : String) : Bool := ending.toList.isSuffixOf text.toList

/-! ### Components -/

/-- A step of a path. -/
inductive Component where
  | root
  | here
  | up
  | name (name : String)
deriving DecidableEq, Repr, Inhabited

/-- The component a segment is, unless it stands for nothing. -/
def Component.ofSegment? (segment : String) : Option Component :=
  if segment == "" || segment == "." then none
  else if segment == ".." then some .up
  else some (.name segment)

/-- The components of a path. -/
def components (path : String) : List Component :=
  let segments := segments path
  let rest := segments.filterMap Component.ofSegment?
  if isAbsolute path then .root :: rest
  else if segments.head? == some "." then .here :: rest
  else rest

/-- The place of a component in the order of components: names come last, by their characters. -/
def Component.compare : Component → Component → Ordering
  | .name a, .name b => if a < b then .lt else if a = b then .eq else .gt
  | a, b => Ord.compare (rank a) (rank b)
where
  /-- The order of the kinds. -/
  rank : Component → Nat
    | .root => 0
    | .here => 1
    | .up => 2
    | .name _ => 3

/-- The order of component lists, first difference first. -/
def compareComponents : List Component → List Component → Ordering
  | [], [] => .eq
  | [], _ :: _ => .lt
  | _ :: _, [] => .gt
  | a :: as, b :: bs => (a.compare b).then (compareComponents as bs)

/-- Orders paths by their components. -/
def le (a b : String) : Bool := compareComponents (components a) (components b) != .gt

/-- Whether two paths have the same components. -/
def same (a b : String) : Bool := components a == components b

/-- Whether a path leads into a directory, or is it. -/
def startsWith (path dir : String) : Bool := (components dir).isPrefixOf (components path)

/-- The last component of a path, if it is a name. -/
def fileName? (path : String) : Option String :=
  match (components path).getLast? with
  | some (.name name) => some name
  | _ => none

/-- Goes from one path to another, which replaces the first when it is absolute. -/
def join (base path : String) : String :=
  if isAbsolute path || base.isEmpty then path
  else if hasEnd "/" base then base ++ path
  else base ++ "/" ++ path

/-- Drops the segments that make up some components. -/
def dropComponents : List Component → List String → Option (List String)
  | [], segments => some segments
  | _ :: _, [] => none
  | c :: cs, segment :: rest =>
    match Component.ofSegment? segment with
    | none => dropComponents (c :: cs) rest
    | some found => if found == c then dropComponents cs rest else none

/-- What a path adds to a directory, as it is written; `none` for a path that does not lead into the
directory. Slashes and dots around it are left out. -/
def stripDirectory? (path dir : String) : Option String :=
  let blank (segment : String) : Bool := segment == "" || segment == "."
  let inside : Option (List String) :=
    match components dir, components path with
    | .root :: rest, .root :: _ => dropComponents rest (segments path)
    | .here :: rest, .here :: _ => dropComponents rest (segments path)
    | .root :: _, _ | .here :: _, _ => none
    | rest, _ => if isAbsolute path && !rest.isEmpty then none
      else dropComponents rest (segments path)
  inside.map fun left =>
    "/".intercalate (((left.dropWhile blank).reverse.dropWhile blank).reverse)

/-! ### Normal form -/

/-- A path in normal form: whether it begins at the root, and the names along it. -/
structure Normal where
  absolute : Bool
  names : List String
deriving DecidableEq, Repr, Inhabited

namespace Normal

/-- Takes one step. There is nothing to step back over at the beginning. -/
def step (names : List String) : Component → List String
  | .name name => names ++ [name]
  | .up => names.dropLast
  | .root | .here => names

/-- The normal form of a path. -/
def ofPath (path : String) : Normal :=
  ⟨isAbsolute path, (components path).foldl step []⟩

/-- A normal form as text. -/
def toPath (n : Normal) : String :=
  (if n.absolute then "/" else "") ++ "/".intercalate n.names

/-- The directory that holds a path. -/
def parent? (n : Normal) : Option Normal :=
  if n.names.isEmpty then none else some ⟨n.absolute, n.names.dropLast⟩

end Normal

/-- The normal form of a path, as text. -/
def normalize (path : String) : String := (Normal.ofPath path).toPath

/-- The part of a file name behind its last dot, unless the dot comes first. -/
def extension? (path : String) : Option String :=
  (fileName? path).bind fun name =>
    let behind := name.toList.reverse.takeWhile (· != '.')
    let before := name.toList.length - behind.length
    if before ≤ 1 then none else some (String.ofList behind.reverse)

end TypedProps.Path
