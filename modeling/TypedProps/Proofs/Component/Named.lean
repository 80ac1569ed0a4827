import TypedProps.Proofs.Exports.Aliases
import TypedProps.Proofs.Property.Members

/-!
# `TypedProps.Proofs.Component.Named`: components whose props have a type name

A component that is made by a factory from a type name alone has the members of what stands behind
the name, and notes what is noted on the way to them (`componentsOf_of_namedComponent?`). For a name
that is imported these are the members of the interface that the import leads to
(`expand_of_interface`), or none and a warning (`expand_of_unresolved`).
-/

set_option autoImplicit false

namespace TypedProps

namespace Program

variable {p : Program} {origin : ModuleId} {entered : List Symbol} {place : Place} {loc : Excerpt}
  {name : EntityName} {arguments : List Ty} {s t : Symbol}

/-- What stands behind an import of one name is its alias. -/
theorem behindImports?_of_importOf? {ways : List Way} {inner : String}
    (imported : p.importOf? s = some (ways, inner)) : p.behindImports? s = p.aliased? s := by
  obtain ⟨_, _, _, declared, -⟩ := importOf?_eq_some_iff.1 imported
  rw [behindImports?, declared]

/-- Behind an import of a name that a module binds and exports itself stands what it binds. -/
theorem behindImports?_of_declared {hop hop' : Hop} {m : ModuleId} {inner : String}
    (imported : p.importOf? s = some ([⟨hop, m⟩], inner))
    (found : p.finding m inner = .declared (some t) hop') (stops : p.importOf? t = none)
    (notWhole : p.wholeImport t = []) : p.behindImports? s = some t := by
  have walk : p.Walk s ⟨t, [hop, hop']⟩ 1 :=
    .of_search imported (.declared found) stops notWhole
  rw [behindImports?_of_importOf? imported, aliased?_eq_some_iff]
  exact ⟨by rw [imported]; rfl, _, _, walk, rfl, by decide⟩

/-- Behind an import from a module that is not there stands nothing. -/
theorem behindImports?_of_missing {inner : String}
    (imported : p.importOf? s = some ([], inner)) : p.behindImports? s = none := by
  rw [behindImports?_of_importOf? imported, Option.eq_none_iff_forall_ne_some]
  intro t aliased
  obtain ⟨-, trail, n, walk, -⟩ := aliased?_eq_some_iff.1 aliased
  cases walk with
  | here stops => cases imported.symm.trans stops
  | next imported' search _ =>
    obtain ⟨rfl, -⟩ := Prod.mk.inj (Option.some.inj (imported.symm.trans imported'))
    cases search

/-- The members of a name that is bound to an import that leads nowhere are none, with a warning. -/
theorem expand_of_unresolved (bound : p.symbolAt place.scope name = some s)
    (nothing : p.behindImports? s = none) :
    p.expand origin entered place (.reference loc name arguments)
      = ⟨[], [⟨.unresolvedImport s.name, place.script, loc.span⟩]⟩ := by
  rw [expand_reference, bound]
  dsimp only
  rw [expandSymbol_eq, nothing]
  rfl

/-- The members of a name behind which there is an interface are the interface's own and those of
its bases. -/
theorem expand_of_interface (bound : p.symbolAt place.scope name = some s)
    (behind : p.behindImports? s = some t) {id : Identifier} {generics : List String}
    {bases : List Base} {members : List Member}
    (declared : p.declaration? t = some (.interfaceDecl id generics bases members))
    (fresh : t ∉ entered) :
    p.expand origin entered place (.reference loc name arguments) = (do
      let own ← p.propertiesOfMembers origin (.inside t.module) members
      pure (own ++ (← p.expandBases origin (t :: entered) t.module bases))) := by
  rw [expand_reference, bound]
  dsimp only
  rw [expandSymbol_eq, behind]
  dsimp only
  rw [expandDeclared, declared]
  dsimp only
  rw [if_neg fresh]

/-- An interface without bases has no members from them. -/
theorem expandBases_nil {m : ModuleId} : p.expandBases origin entered m [] = pure [] := by
  rw [expandBases.eq_def]

/-- The members of a base that nothing declares are none, with a warning. -/
theorem expandBases_of_unknown {m : ModuleId} {base : Base} {baseName : String}
    (named : base.name = some baseName) (unknown : p.lookup m baseName = none) :
    p.expandBases origin entered m [base] = ⟨[], [⟨.unknownType baseName, m, base.loc⟩]⟩ := by
  rw [expandBases.eq_def]
  dsimp only
  rw [named]
  dsimp only
  rw [unknown]
  dsimp only
  rw [expandBases_nil]
  rfl

end Program

namespace Program

variable {p : Program} {origin script : ModuleId} {type : Ty} {bound : String}
  {loc loc' loc'' : Span}

/-- The variable that a factory makes from one type argument and an empty object is recognized, with
that type for its props. -/
theorem ofVariable_of_call :
    Recognized.ofVariable .standard script none
        (.call loc (.name loc' "defineComponent") [type] [.plain (.object loc'' [])])
      = pure (some ⟨⟨some type, none, none⟩, [], []⟩) := rfl

/-- Leaving out no names leaves out nothing. -/
theorem propertiesWithout_nil (p : Program) (origin script : ModuleId) (type : Ty) :
    p.propertiesWithout origin script [] (some type)
      = p.propertiesOf origin ⟨origin, script⟩ type := by
  have all (properties : List Property) : Property.without [] properties = properties :=
    List.filter_eq_self.mpr fun _ _ => rfl
  rw [propertiesWithout, funext all]
  exact id_map _

/-- Such a variable is a component with the members of the type. -/
theorem componentOfVariable_of_call :
    p.componentOfVariable .standard origin script ⟨⟨some bound, none⟩,
        some (.call loc (.name loc' "defineComponent") [type] [.plain (.object loc'' [])])⟩
      = (fun members => some (bound, ⟨Property.firsts members, [], []⟩))
          <$> p.expand origin [] ⟨origin, script⟩ type := by
  unfold componentOfVariable
  dsimp only
  rw [ofVariable_of_call, pure_bind]
  dsimp only
  rw [componentOf]
  dsimp only
  rw [propertiesWithout_nil, propertiesOf]
  simp only [propertiesWithout, pure_bind, map_eq_pure_bind, bind_assoc, Option.map_some]

end Program

/-- The only variable that some items declare, if it is a component that a factory makes from a type
name: its own name, the place of the type name, and the type name. -/
def namedComponent? (items : List Item) : Option (String × Excerpt × EntityName) :=
  match items.flatMap Item.variables with
  | [⟨⟨some bound, none⟩, some (.call _ (.name _ "defineComponent") [.reference loc name []]
      [.plain (.object _ [])])⟩] => some (bound, loc, name)
  | _ => none

/-- Such items declare one component, which has the members of the type name. -/
theorem componentsOf_of_namedComponent? {items : List Item} {bound : String} {loc : Excerpt}
    {name : EntityName} (declares : namedComponent? items = some (bound, loc, name)) (p : Program)
    (m : ModuleId) : p.componentsOf .standard m m items =
      (fun members => [(bound, ⟨Property.firsts members, [], []⟩)])
        <$> p.expand m [] ⟨m, m⟩ (.reference loc name []) := by
  unfold namedComponent? at declares
  split at declares
  · rename_i single
    cases declares
    unfold Program.componentsOf
    rw [single, Program.componentsAmong, Program.componentOfVariable_of_call,
      Program.componentsAmong]
    simp only [map_eq_pure_bind, bind_assoc, pure_bind]
    rfl
  · cases declares

namespace Program

section Transform

variable {p : Program} {sources : Sources} {path : String} {entry : LoadedModule}

/-- A file that declares such a component is transformed into itself with the patch behind it, and
what is noted about the members of the type name is said. -/
theorem transformFile_of_namedComponent? (loaded : Program.load sources path = .ok p)
    (isEntry : p.module? 0 = some entry) {bound : String} {loc : Excerpt} {name : EntityName}
    (declares : namedComponent? entry.items = some (bound, loc, name))
    {members : Noted (List Property)}
    (expanded : p.expand 0 [] ⟨0, 0⟩ (.reference loc name []) = members) :
    let components : ComponentMap := [(bound, ⟨Property.firsts members.value, [], []⟩)]
    transformFile sources .standard path = .ok (p,
      { code := entry.text ++ "\n" ++ Patch.textAll .standard components
        patch := Patch.textAll .standard components
        components
        diagnostics := members.notes }) := by
  obtain ⟨entry', isEntry', transformed⟩ := transformFile_eq loaded .standard
  obtain rfl := Option.some.inj (isEntry.symm.trans isEntry')
  have noted : (members.notes ++ []) = members.notes := List.append_nil _
  rw [transformed]
  unfold transformModule
  rw [componentsOf_of_namedComponent? declares, expanded]
  show Except.ok (p, Transformed.mk _ _ _ (Options.shown .standard (members.notes ++ []))) = _
  rw [noted]
  rfl

/-- A file without variables is transformed into itself, and nothing is said about it. -/
theorem transformFile_of_no_variables (loaded : Program.load sources path = .ok p)
    (isEntry : p.module? 0 = some entry) (none : entry.items.flatMap Item.variables = []) :
    transformFile sources .standard path = .ok (p, ⟨entry.text, "", [], []⟩) := by
  obtain ⟨entry', isEntry', transformed⟩ := transformFile_eq loaded .standard
  obtain rfl := Option.some.inj (isEntry.symm.trans isEntry')
  rw [transformed]
  unfold transformModule componentsOf
  rw [none]
  rfl

end Transform

end Program

end TypedProps
