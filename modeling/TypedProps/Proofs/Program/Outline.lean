import TypedProps.Proofs.Program.Relocation

/-!
# `TypedProps.Proofs.Program.Outline`: what types depend on in a program

The outline of a program keeps what its modules say about types: the declarations of types, the
imports and the exports, and where specifiers lead (`Program.outline`). Texts, variables, functions
and all positions are gone. Programs with one outline bind the same names to the same types, and
differ in nothing but what their variables are and where things are written.

A program has all of its outline in it (`Program.embeds_outline`), so whatever a relocation keeps
can be read off the outline.
-/

set_option autoImplicit false

namespace TypedProps

/-- Every stretch becomes the same one. -/
def Span.forget (_ : Span) : Span := default

/-- What a declaration says about types, without positions. -/
def Decl.outline? : Decl → Option Decl
  | .typeAlias name generics body =>
    some (.typeAlias (name.moved Span.forget) generics (body.moved Span.forget))
  | .interfaceDecl name generics bases members =>
    some (.interfaceDecl (name.moved Span.forget) generics (bases.map (Base.moved Span.forget))
      (Member.movedAll Span.forget members))
  | .classDecl name => some (.classDecl (name.moved Span.forget))
  | .enumDecl name members =>
    some (.enumDecl (name.moved Span.forget) (members.map (EnumMember.moved Span.forget)))
  | .variables _ | .other => none

/-- What a default export says about types, without positions. -/
def DefaultExport.outline? : DefaultExport → Option DefaultExport
  | .interfaceDecl name generics bases members =>
    some (.interfaceDecl (name.moved Span.forget) generics (bases.map (Base.moved Span.forget))
      (Member.movedAll Span.forget members))
  | .classDecl (some name) => some (.classDecl (some (name.moved Span.forget)))
  | .classDecl none | .function | .expression _ => none

/-- A binding of an import without its position. -/
def ImportSpecifier.outline (s : ImportSpecifier) : ImportSpecifier :=
  { s with binding := s.binding.moved Span.forget }

/-- What an item says about types, without positions. -/
def ItemForm.outline? : ItemForm → Option ItemForm
  | .declaration exported decl => decl.outline?.map (.declaration exported)
  | .defaultExport value => value.outline?.map .defaultExport
  | .importDecl typeOnly specifiers source =>
    some (.importDecl typeOnly (specifiers.map ImportSpecifier.outline) source)
  | .exportList typeOnly specifiers source => some (.exportList typeOnly specifiers source)
  | .exportAll typeOnly source => some (.exportAll typeOnly source)
  | .exportAllAs .. | .other => none

/-- An item that says something about types, without its position. -/
def Item.outline? (item : Item) : Option Item := item.form.outline?.map fun form => ⟨0, [], form⟩

/-- What a module says about types. -/
def LoadedModule.outline (m : LoadedModule) : LoadedModule :=
  { m with text := "", items := m.items.filterMap Item.outline? }

/-- What the modules of a program say about types. -/
def Program.outline (p : Program) : Program := ⟨p.modules.map LoadedModule.outline, p.failures⟩

namespace Relocation

/-- All modules stay where they are, and all stretches are forgotten. -/
def forget : Relocation := ⟨id, Span.forget, Function.injective_id⟩

theorem entry_forget (e : ExportEntry) : forget.entry e = e := by
  cases e with
  | own => rfl
  | reexport source name typeOnly => cases source <;> rfl

theorem namedExport_forget (e : NamedExport) : forget.namedExport e = e := by
  show NamedExport.mk e.name (forget.entry e.entry) e.override = e
  rw [entry_forget]

end Relocation

/-- What is listed of the items of an outline is listed of the items that are left out too, if these
have nothing to list. -/
theorem flatMap_filterMap_outline? {β : Type} {items : List Item} {f g : Item → List β}
    (same : ∀ item : Item, item.outline?.toList.flatMap f = g item) :
    (items.filterMap Item.outline?).flatMap f = items.flatMap g := by
  induction items with
  | nil => rfl
  | cons item rest ih =>
    rw [List.filterMap_cons, List.flatMap_cons, ← same item, ← ih]
    cases item.outline? <;> simp

/-- The outline of a module agrees with the module. -/
theorem LoadedModule.agrees_outline (m : LoadedModule) :
    Relocation.forget.Agrees m.outline m := by
  -- The declarations, the exports and the targets of stars, each item by item.
  refine .of_lists ?_ ?_ ?_
  · unfold declarations
    rw [List.map_flatMap]
    refine flatMap_filterMap_outline? fun item => ?_
    obtain ⟨start, docs, form⟩ := item
    cases form with
    | declaration exported decl => cases decl <;> rfl
    | defaultExport value => rcases value with _ | (_ | _) | _ | _ <;> rfl
    | importDecl typeOnly specifiers source =>
      show (specifiers.map _).map _ ++ [] = (specifiers.map _).map _
      rw [List.append_nil, List.map_map, List.map_map]
      refine List.map_congr_left fun specifier _ => ?_
      show Declaration.imported _ (m.target source) _ _ = .imported _ ((m.target source).map id) _ _
      rw [Option.map_id]
      rfl
    | exportList | exportAll | exportAllAs | other => rfl
  · have kept : Relocation.forget.namedExport = id := funext Relocation.namedExport_forget
    rw [kept, List.map_id]
    refine flatMap_filterMap_outline? fun item => ?_
    obtain ⟨start, docs, form⟩ := item
    cases form with
    | declaration exported decl => cases exported <;> cases decl <;> rfl
    | defaultExport value => rcases value with _ | (_ | _) | _ | _ <;> rfl
    | exportList typeOnly specifiers source => exact List.append_nil _
    | importDecl | exportAll | exportAllAs | other => rfl
  · have kept (list : List ModuleId) : list.map Relocation.forget.module = list := List.map_id _
    rw [kept]
    unfold starTargets
    rw [List.filterMap_eq_flatMap_toList, List.filterMap_eq_flatMap_toList]
    refine flatMap_filterMap_outline? fun item => ?_
    obtain ⟨start, docs, form⟩ := item
    cases form with
    | declaration exported decl => cases decl <;> rfl
    | defaultExport value => rcases value with _ | (_ | _) | _ | _ <;> rfl
    | exportAll typeOnly source => exact List.append_nil _
    | importDecl | exportList | exportAllAs | other => rfl

/-- A program has all of its outline in it. -/
theorem Program.embeds_outline (p : Program) : Relocation.forget.Embeds p.outline p := by
  have there (id : ModuleId) : p.outline.module? id = (p.module? id).map LoadedModule.outline :=
    List.getElem?_map ..
  constructor
  · intro id missing
    show p.outline.module? id = none
    rw [there, missing]
    rfl
  · intro id m isModule
    refine ⟨m.outline, ?_, m.agrees_outline⟩
    show p.outline.module? id = some m.outline
    rw [there, isModule]
    rfl

end TypedProps
