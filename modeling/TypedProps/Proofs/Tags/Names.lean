import TypedProps.Proofs.Tags.Leaves

/-!
# `TypedProps.Proofs.Tags.Names`: the names in the text of tags

The text of a list of tags is put together from words of the language, from literals as they were
written, and from names (`Tag.pieces`). `traced_of_mem_tagsOf` says where the names come from.
`Array` and `Function` are the only ones that need not have been written. Every other one was
written as a reference (`Program.Spells`), at a site that the resolution comes to from the type: it
goes into parts as for `Program.Reaches`, and besides into the elements of arrays.

What a name means where it is written (`Program.meaning`) depends on the type parameters that are in
scope there, and a site knows them. The resolution does not: it looks every name up among the
declarations of a module, and a parameter of the same name makes no difference.
-/

set_option autoImplicit false

namespace TypedProps

/-! ### Text in pieces -/

/-- A stretch of the text of a tag. -/
inductive Piece where
  /-- A word of the language, or what separates others. -/
  | fixed (text : String)
  /-- A literal as it was written. -/
  | literal (text : String)
  | name (text : String)
deriving DecidableEq, Repr, Inhabited

/-- What a piece looks like. -/
def Piece.text : Piece → String
  | .fixed text | .literal text | .name text => text

/-- The text of several pieces. -/
def Piece.textAll (pieces : List Piece) : String := String.join (pieces.map Piece.text)

@[simp] theorem Piece.textAll_nil : textAll [] = "" := rfl

@[simp] theorem Piece.textAll_append (left right : List Piece) :
    textAll (left ++ right) = textAll left ++ textAll right := by
  simp [textAll, String.join_append]

@[simp] theorem Piece.textAll_cons (piece : Piece) (rest : List Piece) :
    textAll (piece :: rest) = piece.text ++ textAll rest := by
  simp [textAll, String.join_cons]

namespace Tag

mutual

/-- The pieces of the type that has just this tag. -/
def pieces : Tag → List Piece
  | .string => [.fixed "string"]
  | .number => [.fixed "number"]
  | .boolean => [.fixed "boolean"]
  | .object => [.fixed "object"]
  | .function => [.name "Function"]
  | .any => [.fixed "any"]
  | .undefined => [.fixed "undefined"]
  | .array [] => [.fixed "unknown[]"]
  | .array (t :: ts) => .name "Array" :: .fixed "<" :: (unionPieces (t :: ts) ++ [.fixed ">"])
  | .literal text _ => [.literal text]
  | .named name constructible => if constructible then [.name name] else [.fixed "unknown"]

/-- The pieces of a union. -/
def unionPieces : List Tag → List Piece
  | [] => []
  | [t] => pieces t
  | t :: ts => pieces t ++ .fixed " | " :: unionPieces ts

end

mutual

/-- The pieces of a tag make up its text. -/
theorem textAll_pieces : ∀ t : Tag, Piece.textAll t.pieces = t.typeText
  | .array [] => rfl
  | .array (t :: ts) => by
    have inside := textAll_unionPieces (t :: ts)
    have opening : "Array" ++ "<" = "Array<" := rfl
    simp only [pieces, typeText, Piece.textAll_cons, Piece.textAll_append, inside,
      Piece.textAll_nil, Piece.text, String.append_empty, ← opening, String.append_assoc]
  | .named name constructible => by
    cases constructible <;> simp [pieces, typeText, Piece.text]
  | .literal text kind => by simp [pieces, typeText, Piece.text]
  | .string | .number | .boolean | .object | .function | .any | .undefined => rfl

/-- The pieces of a union make up its text. -/
theorem textAll_unionPieces : ∀ ts : List Tag, Piece.textAll (unionPieces ts) = unionText ts
  | [] => rfl
  | [t] => textAll_pieces t
  | t :: u :: ts => by
    have first := textAll_pieces t
    have rest := textAll_unionPieces (u :: ts)
    simp only [unionPieces, unionText, Piece.textAll_append, Piece.textAll_cons, first, rest,
      Piece.text, String.append_assoc]

end

/-- A name in a union is one of a tag in it. -/
theorem exists_of_name_mem_unionPieces {n : String} {tags : List Tag}
    (named : .name n ∈ unionPieces tags) : ∃ t ∈ tags, .name n ∈ t.pieces := by
  induction tags with
  | nil => cases named
  | cons t rest ih =>
    cases rest with
    | nil => exact ⟨t, List.mem_cons_self, named⟩
    | cons u rest =>
      rcases List.mem_append.mp named with named | named
      · exact ⟨t, List.mem_cons_self, named⟩
      · have later : Piece.name n ∈ unionPieces (u :: rest) := by simpa using named
        obtain ⟨v, inside, named⟩ := ih later
        exact ⟨v, List.mem_cons_of_mem _ inside, named⟩

/-- A name in an array is that of arrays, or one of a tag of its elements. -/
theorem name_mem_pieces_array {n : String} {elements : List Tag}
    (named : .name n ∈ (array elements).pieces) :
    n = "Array" ∨ ∃ t ∈ elements, .name n ∈ t.pieces := by
  cases elements with
  | nil => simp [pieces] at named
  | cons t rest =>
    have cases' : n = "Array" ∨ Piece.name n ∈ unionPieces (t :: rest) := by
      simpa [pieces] using named
    exact cases'.imp_right exists_of_name_mem_unionPieces

/-- Where names are no values there are only names inside arrays. -/
theorem pieces_erased_subset {n : String} {t : Tag} (named : .name n ∈ t.erased.pieces) :
    .name n ∈ t.pieces := by
  cases t with
  | named name constructible => simp [erased, pieces] at named
  | _ => exact named

end Tag

namespace Program

variable {p : Program} {origin : ModuleId}

/-! ### Meanings -/

/-- What a name means. -/
inductive Meaning where
  | parameter
  /-- What a module binds under the name. -/
  | bound (s : Symbol)
  /-- What is there without any declaration, if there is anything. -/
  | ambient
deriving DecidableEq, Repr, Inhabited

/-- What a name means in a module, where some type parameters are in scope. -/
def meaning (p : Program) (m : ModuleId) (parameters : List String) (n : String) : Meaning :=
  if n ∈ parameters then .parameter else (p.lookup m n).elim .ambient .bound

/-- The symbol that a name stands for in a module is that name in that module. -/
theorem eq_of_lookup {m : ModuleId} {n : String} {s : Symbol} (h : p.lookup m n = some s) :
    s = ⟨m, n⟩ := by
  obtain ⟨d, -, same⟩ := Option.map_eq_some_iff.mp h
  exact same.symm

/-- At the top level of a module a name means what the module binds under it. -/
theorem meaning_of_lookup {m : ModuleId} {n : String} {s : Symbol} (h : p.lookup m n = some s) :
    p.meaning m [] n = .bound ⟨m, n⟩ := by
  simp [meaning, h, eq_of_lookup h]

/-- When a name means the same somewhere as at the top level of a module: no type parameter hides it
there, and it is the same module or neither module binds the name. -/
theorem meaning_eq_iff {m : ModuleId} {parameters : List String} {n : String} :
    p.meaning m parameters n = p.meaning origin [] n ↔
      n ∉ parameters ∧ (m = origin ∨ p.lookup m n = none ∧ p.lookup origin n = none) := by
  unfold meaning
  by_cases hidden : n ∈ parameters
  · cases p.lookup origin n <;> simp [hidden]
  rw [if_neg hidden, if_neg List.not_mem_nil]
  simp only [hidden, not_false_eq_true, true_and]
  -- A module binds a name to a symbol of its own, so two modules never bind one to the same symbol.
  by_cases same : m = origin
  · simp [same]
  simp only [same, false_or]
  cases there : p.lookup m n with
  | none => cases p.lookup origin n <;> simp
  | some s =>
    obtain rfl := eq_of_lookup there
    cases here : p.lookup origin n with
    | none => simp
    | some t =>
      obtain rfl := eq_of_lookup here
      simp [same]

/-- A module binds the first identifier of a type name that leads to a declaration. -/
theorem exists_lookup_of_typeDeclared? {m : ModuleId} {name : EntityName} {s : Symbol}
    {d : Declaration} (h : p.typeDeclared? m name = some (s, d)) :
    ∃ t, p.lookup m name.first = some t := by
  have referent := (declaration?_of_typeDeclared? h).1
  have bound : p.symbolAt m name ≠ none := by
    intro unbound
    simp [Program.referent, unbound] at referent
  obtain ⟨t, bound⟩ := Option.ne_none_iff_exists'.mp bound
  rcases symbolAt_eq_some_iff.1 bound with ⟨-, plain⟩ | ⟨_, id, source, typeOnly, -, whole, -⟩
  · exact ⟨t, plain⟩
  · exact ⟨⟨m, name.first⟩, Option.map_eq_some_iff.mpr ⟨_, whole, rfl⟩⟩

/-! ### Sites -/

/-- A type where it is written: the module in whose scope it stands, and the type parameters that
are in scope there besides. -/
structure Site where
  scope : ModuleId
  parameters : List String
  type : Ty

/-- One step from a site to one whose names can be in the text of its tags. The body of an alias is
in the scope of the parameters of the alias, and of no others. -/
inductive Draws (p : Program) : Site → Site → Prop
  | part {m : ModuleId} {parameters : List String} {inner type : Ty} (part : Part inner type) :
      Draws p ⟨m, parameters, type⟩ ⟨m, parameters, inner⟩
  | element {m : ModuleId} {parameters : List String} {inner type : Ty}
      (element : Element inner type) : Draws p ⟨m, parameters, type⟩ ⟨m, parameters, inner⟩
  | argument {m : ModuleId} {parameters : List String} {loc : Excerpt} {name : EntityName}
      {argument : Ty} {rest : List Ty} (undeclared : p.typeDeclared? m name = none)
      (isArray : name.isGlobalArray = true) :
      Draws p ⟨m, parameters, .reference loc name (argument :: rest)⟩ ⟨m, parameters, argument⟩
  | alias {m : ModuleId} {parameters : List String} {loc : Excerpt} {name : EntityName}
      {arguments : List Ty} {s : Symbol} {id : Identifier} {generics : List String} {body : Ty}
      (declared : p.typeDeclared? m name = some (s, .typeAlias id generics body)) :
      Draws p ⟨m, parameters, .reference loc name arguments⟩ ⟨s.module, generics, body⟩

/-- `p.Spells origin site name n`: the text of tags, as seen from module `origin`, has the name `n`
for the reference `name` at a site. Either the reference leads to nothing that is declared, and a
constructor that is there without a declaration has the last identifier of it. Or the reference
stands in the scope of `origin` and leads from what that module binds to a class, and the name is
the reference as written. -/
def Spells (p : Program) (origin : ModuleId) (site : Site) (name : EntityName) (n : String) :
    Prop :=
  (n = name.last ∧ n ∈ globalConstructors ∧ p.typeDeclared? site.scope name = none) ∨
    (n = name.text ∧ site.scope = origin ∧
      p.meaning origin [] name.first = .bound ⟨origin, name.first⟩ ∧
      ∃ s id, p.typeDeclared? origin name = some (s, .classDecl id))

/-- A name was written as a reference at a site that another one draws on. -/
def Traced (p : Program) (origin : ModuleId) (site : Site) (n : String) : Prop :=
  ∃ source loc name arguments, Relation.ReflTransGen p.Draws site source ∧
    source.type = .reference loc name arguments ∧ p.Spells origin source name n

/-- What a site draws on gives it its names. -/
theorem Traced.head {a b : Site} {n : String} (step : p.Draws a b)
    (traced : p.Traced origin b n) : p.Traced origin a n := by
  obtain ⟨source, loc, name, arguments, ways, written, spells⟩ := traced
  exact ⟨source, loc, name, arguments, .head step ways, written, spells⟩

/-! ### Where names come from -/

/-- The name in the tag of a reference under which nothing is declared is that of functions or that
of a constructor. -/
theorem name_mem_pieces_globalTag {name : EntityName} {n : String}
    (named : .name n ∈ name.globalTag.pieces) :
    n = "Function" ∨ n = name.last ∧ n ∈ globalConstructors := by
  cases tag : name.globalTag with
  | named text constructible =>
    rw [tag] at named
    cases constructible with
    | false => simp [Tag.pieces] at named
    | true =>
      obtain ⟨rfl, known⟩ := EntityName.globalTag_eq_named tag
      obtain rfl : n = name.last := by simpa [Tag.pieces] using named
      exact Or.inr ⟨rfl, known⟩
  | array elements =>
    -- No name alone is that of an array.
    unfold EntityName.globalTag at tag
    split at tag <;> try cases tag
    split at tag <;> cases tag
  | function =>
    rw [tag] at named
    exact Or.inl (by simpa [Tag.pieces] using named)
  | _ =>
    rw [tag] at named
    simp [Tag.pieces] at named

/-- The name in a tag that a type gives by itself is that of functions, or is written there. -/
theorem traced_of_gives {m : ModuleId} {type : Ty} {t : Tag} {n : String}
    (gives : p.Gives origin (m, type) t) (named : .name n ∈ t.pieces) (parameters : List String) :
    n = "Function" ∨ p.Traced origin ⟨m, parameters, type⟩ n := by
  -- Besides functions, only classes and global names have a name in their tag.
  cases gives with
  | keyword tag =>
    rename_i loc word
    cases word <;> cases tag <;> simp [Tag.pieces] at named
  | literal known => simp [Tag.pieces] at named
  | function => exact Or.inl (by simpa [Tag.pieces] using named)
  | object => simp [Tag.pieces] at named
  | mapped => simp [Tag.pieces] at named
  | interfaceDecl declared => simp [Tag.pieces] at named
  | enumDecl declared =>
    unfold enumTag at named
    split at named <;> simp [Tag.pieces] at named
  | classDecl declared =>
    rename_i loc name arguments s id
    rw [Tag.pieces] at named
    split at named
    · rename_i constructible
      obtain rfl : n = name.text := by simpa using named
      obtain rfl : m = origin := by
        simp only [Bool.and_eq_true, beq_iff_eq] at constructible
        exact constructible.1
      obtain ⟨t, bound⟩ := exists_lookup_of_typeDeclared? declared
      exact Or.inr ⟨_, loc, name, arguments, .refl, rfl,
        Or.inr ⟨rfl, rfl, meaning_of_lookup bound, s, id, declared⟩⟩
    · simp at named
  | global undeclared notArray =>
    rename_i loc name arguments
    have named : Piece.name n ∈ name.globalTag.pieces := by
      split at named
      · exact Tag.pieces_erased_subset named
      · exact named
    rcases name_mem_pieces_globalTag named with rfl | ⟨last, known⟩
    · exact Or.inl rfl
    · exact Or.inr ⟨_, loc, name, arguments, .refl, rfl, Or.inl ⟨last, known, undeclared⟩⟩

/-- A name in a tag of a type is that of arrays or of functions, or it was written as a reference
that the type draws on. -/
theorem traced_of_mem_tagsOf {entered : List Symbol} {place : Place} {type : Ty} {t : Tag}
    {n : String} (mem : t ∈ (p.tagsOf origin entered place type).value)
    (named : .name n ∈ t.pieces) (parameters : List String) :
    n = "Array" ∨ n = "Function" ∨ p.Traced origin ⟨place.scope, parameters, type⟩ n := by
  -- The same recursion as that of the resolution: on the type, and through aliases not yet entered.
  rcases mem_tagsOf_cases mem with
    ⟨elements, rfl, all⟩ | gives | ⟨inner, part, mem⟩ | ⟨loc, name, arguments, rfl⟩
  · rcases Tag.name_mem_pieces_array named with isArray | ⟨u, inside, named⟩
    · exact Or.inl isArray
    · obtain ⟨inner, element, mem⟩ := all u inside
      have := element.sizeOf_lt
      exact (traced_of_mem_tagsOf mem named parameters).imp_right
        (Or.imp_right (Traced.head (.element element)))
  · exact Or.inr (traced_of_gives gives named parameters)
  · have := part.sizeOf_lt
    exact (traced_of_mem_tagsOf mem named parameters).imp_right
      (Or.imp_right (Traced.head (.part part)))
  rcases mem_tagsOf_reference_cases mem with
    ⟨elements, rfl, undeclared, isArray, all⟩ | gives |
      ⟨s, id, generics, body, declared, fresh, u, mem, eq⟩
  · rcases Tag.name_mem_pieces_array named with isName | ⟨u, inside, named⟩
    · exact Or.inl isName
    · obtain ⟨argument, rest, rfl, among⟩ := all u inside
      have : sizeOf argument < sizeOf (Ty.reference loc name (argument :: rest)) := by
        simp only [Ty.reference.sizeOf_spec, List.cons.sizeOf_spec]
        omega
      exact (traced_of_mem_tagsOf among named parameters).imp_right
        (Or.imp_right (Traced.head (.argument undeclared isArray)))
  · exact Or.inr (traced_of_gives gives named parameters)
  · have := unentered_cons_lt
      (mem_symbols_of_declaration? (declaration?_of_typeDeclared? declared).2) fresh
    have named : Piece.name n ∈ u.pieces := by
      rcases eq with rfl | rfl
      · exact named
      · exact Tag.pieces_erased_subset named
    exact (traced_of_mem_tagsOf mem named generics).imp_right
      (Or.imp_right (Traced.head (.alias declared)))
termination_by (p.unentered entered, sizeOf type)

end Program

end TypedProps
