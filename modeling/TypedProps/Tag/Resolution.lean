import TypedProps.Diagnostic
import TypedProps.Program.Exports
import TypedProps.Tag

/-!
# `TypedProps.Tag.Resolution`: from declared types to tags

`tagsOf` reads the tags off a type. Parentheses, `readonly` and optional elements do not matter;
unions and intersections collect the tags of their parts; a reference is followed through imports
and aliases to a declaration, and a name without one is looked up among the global types. The
aliases that are being followed are known, and one that comes back to itself contributes nothing
but a warning: since each step into an alias enters a new symbol, following ends.
-/

set_option autoImplicit false

namespace TypedProps

/-- Global names that are constructors at run time. -/
def globalConstructors : List String :=
  ["Date", "RegExp", "Map", "Set", "WeakMap", "WeakSet", "Promise", "Error", "Symbol"]

/-- The tag of a keyword type, if it has one. -/
def Keyword.tag? : Keyword → Option Tag
  | .string => some .string
  | .number => some .number
  | .boolean => some .boolean
  | .object => some .object
  | .any | .unknown => some .any
  | .undefined | .void => some .undefined
  | .null | .never | .symbol | .bigint | .intrinsic => none

/-- The kind of value a literal type admits; big integers have none. -/
def LiteralForm.kind? : LiteralForm → Option LiteralKind
  | .string | .template => some .string
  | .number => some .number
  | .boolean => some .boolean
  | .bigint => none

/-- Whether a member of an enumeration is initialized by a string. -/
def EnumMember.isString (member : EnumMember) : Bool :=
  match member.init with
  | some (.string _ _) | some (.template _) => true
  | _ => false

/-- The tag of an enumeration: its values are strings if one of them is written as a string. -/
def enumTag (members : List EnumMember) : Tag :=
  if members.any EnumMember.isString then .string else .number

/-- Whether a name stands for arrays when nothing is declared under it. -/
def EntityName.isGlobalArray (name : EntityName) : Bool :=
  name.last == "Array" || name.last == "ReadonlyArray"

/-- The tag of a name under which nothing is declared, arrays apart. -/
def EntityName.globalTag (name : EntityName) : Tag :=
  match name.last with
  | "Record" | "Partial" | "Required" | "Readonly" | "Pick" | "Omit" | "Object" => .object
  | "String" => .string
  | "Number" => .number
  | "Boolean" => .boolean
  | "Function" => .function
  | last => if last ∈ globalConstructors then .named last true else .named name.text false

/-- Where a type stands: the module in which its names are looked up, and the module in whose script
it is written. The two differ only for what one module declares and another one looks at. -/
structure Place where
  scope : ModuleId
  script : ModuleId
deriving DecidableEq, Repr, Inhabited

/-- The place of what a module declares in its own scope. -/
def Place.inside (m : ModuleId) : Place := ⟨m, m⟩

namespace Program

/-- What a type name leads to: the symbol behind all imports, if there is one, and whether the name
exists for types only. -/
def referent (p : Program) (m : ModuleId) (name : EntityName) : Option Symbol × Bool :=
  match p.symbolAt m name with
  | none => (none, false)
  | some s =>
    match p.declaration? s with
    | some (.imported ..) =>
      match p.aliased? s with
      | some target => (some target, p.isTypeOnly s)
      | none => (none, false)
    | _ => (some s, false)

mutual

/-- The tags of the type at a place, as seen from module `origin`. The aliases in `entered` are being
followed already. -/
def tagsOf (p : Program) (origin : ModuleId) (entered : List Symbol) (place : Place) (type : Ty) :
    Noted (List Tag) :=
  match type with
  | .keyword _ word => pure word.tag?.toList
  | .literal loc form => pure (form.kind?.map (Tag.literal loc.text)).toList
  | .array _ element => do pure [.array (← tagsOf p origin entered place element)]
  | .tuple _ elements => do pure [.array (Tag.merge [] (← allTags p origin entered place elements))]
  | .function _ => pure [.function]
  | .paren _ inner | .optional _ inner | .readonly _ inner => tagsOf p origin entered place inner
  | .object _ _ | .mapped _ => pure [.object]
  | .union _ parts | .intersection _ parts => do
    pure (Tag.merge [] (← allTags p origin entered place parts))
  | .other _ => pure []
  | .reference loc name arguments => do
    let global : Noted (List Tag) :=
      if name.isGlobalArray then
        match arguments with
        | argument :: _ => do pure [.array (← tagsOf p origin entered place argument)]
        | [] => pure [.array []]
      else pure [name.globalTag]
    let (target, typeOnly) := p.referent place.scope name
    let tags ←
      match target with
      | none => global
      | some s =>
        match h : p.declaration? s with
        | some (.typeAlias _ _ body) =>
          if again : s ∈ entered then do
            Noted.note (.recursiveAlias s.name) place.script loc.span
            pure []
          else
            have := unentered_cons_lt (mem_symbols_of_declaration? h) again
            tagsOf p origin (s :: entered) (.inside s.module) body
        | some (.interfaceDecl ..) => pure [.object]
        | some (.classDecl _) => pure [.named name.text (place.scope == origin)]
        | some (.enumDecl _ members) => pure [enumTag members]
        | some (.imported ..) | none => global
    pure (if typeOnly then tags.map Tag.erased else tags)
termination_by (p.unentered entered, sizeOf type)

/-- The tags of several types, one after the other. -/
def allTags (p : Program) (origin : ModuleId) (entered : List Symbol) (place : Place)
    (types : List Ty) : Noted (List Tag) :=
  match types with
  | [] => pure []
  | type :: rest => do
    let first ← tagsOf p origin entered place type
    pure (first ++ (← allTags p origin entered place rest))
termination_by (p.unentered entered, sizeOf types)

end

/-- Whether the tags of a type say all there is to say about it. -/
def isSelfDescribing (type : Ty) (tags : List Tag) : Bool :=
  match type, tags with
  | .keyword .., _ => true
  | _, [.string] | _, [.number] | _, [.boolean] | _, [.any] => true
  | _, [.named _ constructible] => constructible
  | _, _ => false

/-- Resolves the type of a member at a place; `none` if it has no tags. A type from the scope of
another module is shown by its tags, because its text may use names that `origin` does not have. -/
def resolveType (p : Program) (origin : ModuleId) (place : Place) (type : Ty) :
    Noted (Option ResolvedType) := do
  let tags := Tag.merge [] (← p.tagsOf origin [] place type)
  if tags.isEmpty then pure none
  else if isSelfDescribing type tags then pure (some ⟨tags, none⟩)
  else pure (some ⟨tags, some (if place.scope == origin then type.text else Tag.unionText tags)⟩)

end Program

end TypedProps
