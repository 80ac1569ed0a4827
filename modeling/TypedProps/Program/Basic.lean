import TypedProps.Grammar.Modules
import TypedProps.Path

/-!
# `TypedProps.Program.Basic`: programs and the names their modules bind

A program is a list of modules, each with the items of its script and the modules its specifiers
lead to. A symbol is a name in a module; what it stands for is its first declaration there. Only
type aliases, interfaces, classes, enumerations and imports bind names, because types refer to
nothing else.
-/

set_option autoImplicit false

namespace TypedProps

/-- The place of a module in its program. -/
abbrev ModuleId := Nat

/-- A module of a program. -/
structure LoadedModule where
  /-- The normal path of the module. -/
  path : String
  text : String
  items : List Item
  /-- Where the specifiers of the module lead. -/
  targets : List (String × Option ModuleId)
deriving Inhabited

/-- The text of a script without the byte order mark that may stand in front of it. -/
def scriptOf (text : String) : List Char :=
  match text.toList with
  | c :: rest => if c.toNat == 0xFEFF then rest else c :: rest
  | [] => []

/-- What a name in a module is declared as. -/
inductive Declaration where
  | typeAlias (name : Identifier) (generics : List String) (body : Ty)
  | interfaceDecl (name : Identifier) (generics : List String) (bases : List Base)
      (members : List Member)
  | classDecl (name : Identifier)
  | enumDecl (name : Identifier) (members : List EnumMember)
  /-- A binding for a name, or for everything, that the module `source` exports. -/
  | imported (name : Identifier) (source : Option ModuleId) (what : ImportedName)
      (typeOnly : Bool)
deriving Inhabited

/-- The identifier that a declaration declares. -/
def Declaration.identifier : Declaration → Identifier
  | .typeAlias name .. | .interfaceDecl name .. | .classDecl name | .enumDecl name _
  | .imported name .. => name

/-- What a module exports under a name. -/
inductive ExportEntry where
  /-- A name the module itself binds. -/
  | own (name : String)
  | reexport (source : Option ModuleId) (name : String) (typeOnly : Bool)
deriving DecidableEq, Repr, Inhabited

/-- A name and its entry, as an item of a module exports it. An entry that does not `override` gives
way to every other one for its name. -/
structure NamedExport where
  name : String
  entry : ExportEntry
  override : Bool
deriving DecidableEq, Repr, Inhabited

namespace Decl

/-- The declaration of a type that a declaration statement makes, if it makes one. -/
def toDeclaration? : Decl → Option Declaration
  | .typeAlias name generics body => some (.typeAlias name generics body)
  | .interfaceDecl name generics bases members => some (.interfaceDecl name generics bases members)
  | .classDecl name => some (.classDecl name)
  | .enumDecl name members => some (.enumDecl name members)
  | .variables _ | .other => none

end Decl

/-- The named declaration behind `export default`, if there is one. -/
def DefaultExport.toDeclaration? : DefaultExport → Option Declaration
  | .interfaceDecl name generics bases members => some (.interfaceDecl name generics bases members)
  | .classDecl (some name) => some (.classDecl name)
  | .classDecl none | .function | .expression _ => none

namespace LoadedModule

/-- Where a specifier leads. -/
def target (m : LoadedModule) (specifier : String) : Option ModuleId :=
  (m.targets.lookup specifier).join

/-- The declarations that an item makes. -/
def declarationsOf (m : LoadedModule) (item : Item) : List Declaration :=
  match item.form with
  | .declaration _ decl => decl.toDeclaration?.toList
  | .defaultExport value => value.toDeclaration?.toList
  | .importDecl typeOnly specifiers source =>
    specifiers.map fun s => .imported s.binding (m.target source) s.imported (typeOnly || s.typeOnly)
  | _ => []

/-- All declarations of a module in source order. -/
def declarations (m : LoadedModule) : List Declaration := m.items.flatMap m.declarationsOf

/-- The first declaration of a name. -/
def declaration? (m : LoadedModule) (name : String) : Option Declaration :=
  m.declarations.find? (·.identifier.name == name)

/-- What an item exports by name. -/
def exportsOf (m : LoadedModule) (item : Item) : List NamedExport :=
  match item.form with
  | .declaration true decl =>
    decl.toDeclaration?.toList.map fun d => ⟨d.identifier.name, .own d.identifier.name, false⟩
  | .defaultExport value =>
    value.toDeclaration?.toList.map fun d => ⟨"default", .own d.identifier.name, true⟩
  | .exportList typeOnly specifiers source =>
    specifiers.map fun s =>
      ⟨s.exported,
        match source with
        | some source => .reexport (m.target source) s.name (typeOnly || s.typeOnly)
        | none => .own s.name,
        true⟩
  | _ => []

/-- What a module exports under a name: the last entry of an export list or a default export, and
without one the exported declaration. -/
def exported? (m : LoadedModule) (name : String) : Option ExportEntry :=
  let found := (m.items.flatMap m.exportsOf).filter (·.name == name)
  ((found.filter (·.override)).getLast?.or found.head?).map (·.entry)

/-- The modules all of whose exports this one passes on, in source order. -/
def starTargets (m : LoadedModule) : List ModuleId :=
  m.items.filterMap fun item =>
    match item.form with
    | .exportAll _ source => m.target source
    | _ => none

/-- The position of an offset in the script of a module. -/
def position (m : LoadedModule) (offset : Nat) : Position :=
  Position.ofOffset (scriptOf m.text) offset

end LoadedModule

/-- Why a module could not be loaded. -/
inductive LoadError where
  | unreadable (path : String)
  | malformed (path : String) (position : Position)
deriving DecidableEq, Repr, Inhabited

/-- The path of the module that could not be loaded. -/
def LoadError.path : LoadError → String
  | .unreadable path | .malformed path _ => path

/-- What is said about a file that cannot be read. -/
def unreadableMessage (path : String) : String := s!"failed to read {path}"

/-- A program: its modules, the entry first, and the modules that could not be loaded. -/
structure Program where
  modules : List LoadedModule
  failures : List LoadError
deriving Inhabited

/-- A name that a module binds. -/
structure Symbol where
  module : ModuleId
  name : String
deriving DecidableEq, Repr, Inhabited

namespace Program

/-- The module at a place. -/
def module? (p : Program) (id : ModuleId) : Option LoadedModule := p.modules[id]?

/-- The place of the module under a path. -/
def moduleId? (p : Program) (path : String) : Option ModuleId :=
  p.modules.findIdx? (·.path == Path.normalize path)

/-- What a symbol is declared as. -/
def declaration? (p : Program) (s : Symbol) : Option Declaration :=
  (p.module? s.module).bind (·.declaration? s.name)

/-- All symbols of a program. -/
def symbols (p : Program) : List Symbol :=
  p.modules.zipIdx.flatMap fun (m, id) => m.declarations.map fun d => ⟨id, d.identifier.name⟩

/-- The symbol that a name stands for in a module. -/
def lookup (p : Program) (m : ModuleId) (name : String) : Option Symbol :=
  (p.declaration? ⟨m, name⟩).map fun _ => ⟨m, name⟩

/-- The position of an offset in a module. -/
def position (p : Program) (m : ModuleId) (offset : Nat) : Position :=
  ((p.module? m).map (·.position offset)).getD ⟨1, 1⟩

/-- A declared symbol is one of the symbols of its program. -/
theorem mem_symbols_of_declaration? {p : Program} {s : Symbol} {d : Declaration}
    (h : p.declaration? s = some d) : s ∈ p.symbols := by
  obtain ⟨id, name⟩ := s
  simp only [declaration?, Option.bind_eq_some_iff] at h
  obtain ⟨m, hm, hd⟩ := h
  have found := List.mem_of_find?_eq_some hd
  have named := List.find?_some hd
  simp only [symbols, List.mem_flatMap, List.mem_map]
  refine ⟨(m, id), ?_, d, found, by simpa using named⟩
  rw [List.mem_zipIdx_iff_getElem?]
  exact hm

/-- How many symbols of a program are not among those `entered`. -/
def unentered (p : Program) (entered : List Symbol) : Nat :=
  (p.symbols.filter fun s => decide (s ∉ entered)).length

/-- Entering a symbol for the first time leaves fewer to enter. -/
theorem unentered_cons_lt {p : Program} {entered : List Symbol} {s : Symbol}
    (declared : s ∈ p.symbols) (fresh : s ∉ entered) :
    p.unentered (s :: entered) < p.unentered entered := by
  have split : (p.symbols.filter fun t => decide (t ∉ s :: entered))
      = (p.symbols.filter fun t => decide (t ∉ entered)).filter fun t => decide (t ≠ s) := by
    rw [List.filter_filter]
    congr 1
    funext t
    by_cases ht : t = s <;> simp [ht]
  unfold unentered
  rw [split, List.length_filter_lt_length_iff_exists]
  exact ⟨s, by simp [declared, fresh], by simp⟩

end Program

end TypedProps
