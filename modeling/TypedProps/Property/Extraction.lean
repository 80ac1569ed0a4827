import TypedProps.Doc
import TypedProps.Property
import TypedProps.Tag.Resolution

/-!
# `TypedProps.Property.Extraction`: from object types to properties

`propertiesOf` lists the named members of an object type: those of a type literal, of the parts of
an intersection, and of the aliases and interfaces that a reference leads to, an interface's own
members before those of its bases. Of members with one name the first counts. What cannot be
followed contributes nothing but a warning. The aliases and interfaces that are being expanded are
known, and one that comes back to itself is not expanded again, which is why extraction ends.
-/

set_option autoImplicit false

namespace TypedProps

/-- The name of a member that is one: it is written out, and not empty. -/
def usableName? (name : Option String) : Option String := name.filter (!·.isEmpty)

/-- A method as text, in the form of a function type. -/
def signatureText (parameters : List String) (result : Option Ty) : String :=
  "(" ++ ", ".intercalate parameters ++ ") => " ++ (result.map Ty.text).getD "any"

namespace Program

/-- The property that a member declares, if it declares one. -/
def propertyOf (p : Program) (origin : ModuleId) (place : Place) (member : Member) :
    Noted (Option Property) :=
  match member with
  | .property _ docs name optional type =>
    match usableName? name with
    | none => pure none
    | some name => do
      let type ← match type with
        | some type => p.resolveType origin place type
        | none => pure none
      let required := !optional && !(type.map (·.contains .undefined)).getD false
      pure (some ⟨name, type, required, none, Doc.cleanAll docs⟩)
  | .method _ docs name optional _ parameters result =>
    match usableName? name with
    | none => pure none
    | some name =>
      let shown :=
        if place.scope == origin then signatureText parameters result else Tag.function.typeText
      pure (some ⟨name, some ⟨[.function], some shown⟩, !optional, none, Doc.cleanAll docs⟩)
  | .other _ _ => pure none

/-- The properties that members declare, in order. -/
def propertiesOfMembers (p : Program) (origin : ModuleId) (place : Place) :
    List Member → Noted (List Property)
  | [] => pure []
  | member :: rest => do
    let first ← p.propertyOf origin place member
    pure (first.toList ++ (← propertiesOfMembers p origin place rest))

/-- Whether a part of an intersection may have members. -/
def mayHaveMembers : Ty → Bool
  | .object .. | .reference .. | .paren .. => true
  | _ => false

mutual

/-- The members of the type at a place, duplicates included. The symbols in `entered` are being
expanded already. -/
def expand (p : Program) (origin : ModuleId) (entered : List Symbol) (place : Place) (type : Ty) :
    Noted (List Property) :=
  match type with
  | .object _ members => p.propertiesOfMembers origin place members
  | .paren _ inner => expand p origin entered place inner
  | .intersection _ parts => expandParts p origin entered place parts
  | .reference loc name _ =>
    match p.symbolAt place.scope name with
    | some s => expandSymbol p origin entered s place.script loc.span
    | none => do
      Noted.note (.unknownType name.text) place.script loc.span
      pure []
  | other => do
    Noted.note .notAnObject place.script other.span
    pure []
termination_by (p.unentered entered, sizeOf type)

/-- The members of the parts of an intersection. -/
def expandParts (p : Program) (origin : ModuleId) (entered : List Symbol) (place : Place)
    (parts : List Ty) : Noted (List Property) :=
  match parts with
  | [] => pure []
  | part :: rest => do
    let first ←
      if mayHaveMembers part then expand p origin entered place part
      else do
        Noted.note .intersectionPart place.script part.span
        pure []
    pure (first ++ (← expandParts p origin entered place rest))
termination_by (p.unentered entered, sizeOf parts)

/-- The members of what a symbol is declared as. `script` and `span` are where it is referred to. -/
def expandSymbol (p : Program) (origin : ModuleId) (entered : List Symbol) (s : Symbol)
    (script : ModuleId) (span : Span) : Noted (List Property) :=
  let imported := match p.declaration? s with
    | some (.imported ..) => true
    | _ => false
  let warn (problem : Problem) : Noted (List Property) := do
    Noted.note problem script span
    pure []
  match if imported then p.aliased? s else some s with
  | none => warn (.unresolvedImport s.name)
  | some t =>
    match h : p.declaration? t with
    | none => warn (.undeclared t.name)
    | some (.classDecl _) | some (.enumDecl ..) => warn (.memberless t.name)
    | some (.imported ..) => warn (.unresolvedImport t.name)
    | some (.typeAlias _ _ body) =>
      if again : t ∈ entered then warn (.recursiveMembers t.name)
      else
        have := unentered_cons_lt (mem_symbols_of_declaration? h) again
        expand p origin (t :: entered) (.inside t.module) body
    | some (.interfaceDecl _ _ bases members) =>
      if again : t ∈ entered then warn (.recursiveMembers t.name)
      else do
        have := unentered_cons_lt (mem_symbols_of_declaration? h) again
        let own ← p.propertiesOfMembers origin (.inside t.module) members
        pure (own ++ (← expandBases p origin (t :: entered) t.module bases))
termination_by (p.unentered entered, 0)

/-- The members of the bases of an interface. -/
def expandBases (p : Program) (origin : ModuleId) (entered : List Symbol) (m : ModuleId)
    (bases : List Base) : Noted (List Property) :=
  match bases with
  | [] => pure []
  | base :: rest => do
    let first ←
      match base.name with
      | none => do
        Noted.note .qualifiedBase m base.loc
        pure []
      | some name =>
        match p.lookup m name with
        | some s => expandSymbol p origin entered s m base.loc
        | none => do
          Noted.note (.unknownType name) m base.loc
          pure []
    pure (first ++ (← expandBases p origin entered m rest))
termination_by (p.unentered entered, bases.length + 1)

end

/-- The properties of the object type at a place, as seen from module `origin`. -/
def propertiesOf (p : Program) (origin : ModuleId) (place : Place) (type : Ty) :
    Noted (List Property) :=
  Property.firsts <$> p.expand origin [] place type

end Program

end TypedProps
