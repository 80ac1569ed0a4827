import TypedProps.Proofs.Grammar.LiteralText
import TypedProps.Proofs.Program.Scripts
import TypedProps.Proofs.Tags.Constructors
import TypedProps.Proofs.Tags.Merging

/-!
# `TypedProps.Proofs.Tags.Synthesis`: the text of tags is a type with these tags

Where the text of a type cannot be copied, its tags are written instead. The text of tags is made in
one place and the tags of a type are read off in another one. Between the two lies the grammar, and
the names of arrays, functions and constructors mean what they should only if nothing else is
declared under them.

* `Denotes`: a type has some tags wherever nothing is declared, whatever is being followed there.
* `Denotable`: tags of which the text says all there is to say. A list inside of an array is not
  empty and has no repetitions, a name is that of a global constructor, and a literal is written as
  one.
* `tagsOf_unionText`: such a list is what the type that is read from its text denotes, in the same
  order, at every depth.
-/

set_option autoImplicit false

namespace TypedProps

open TypedProps.Grammar

/-- Nothing is declared in a module. -/
def Program.DeclaresNothing (p : Program) (m : ModuleId) : Prop :=
  ∀ module, p.module? m = some module → module.declarations = []

/-- A type has some tags in every module that declares nothing, and nothing is noted about it. -/
def Ty.Denotes (type : Ty) (tags : List Tag) : Prop :=
  ∀ (p : Program) (origin : ModuleId) (entered : List Symbol) (place : Place),
    p.DeclaresNothing place.scope → p.tagsOf origin entered place type = pure tags

namespace Ty.Denotes

variable {loc : Excerpt} {tags : List Tag}

theorem keyword {word : Keyword} {t : Tag} (tagged : word.tag? = some t) :
    Denotes (.keyword loc word) [t] := by
  intro p origin entered place _
  rw [Program.tagsOf, tagged]
  rfl

theorem literal {text : String} {kind : LiteralKind} {type : Ty}
    (isLiteral : IsLiteral text kind type) : type.Denotes [.literal text kind] := by
  intro p origin entered place _
  obtain ⟨loc, form, rfl, rfl, isKind⟩ := isLiteral
  rw [Program.tagsOf, isKind]
  rfl

/-- A plain name stands for a global type. -/
theorem tagsOf_plain {p : Program} {place : Place} (nothing : p.DeclaresNothing place.scope)
    (name : String) (arguments : List Ty) (origin : ModuleId) (entered : List Symbol) :
    p.tagsOf origin entered place (.reference loc (.plain name) arguments)
      = p.tagsOfGlobal origin entered place (.plain name) arguments := by
  have unbound : p.symbolAt place.scope (.plain name) = none := by
    show p.lookup place.scope name = none
    rw [Program.lookup, Program.declaration?]
    cases isModule : p.module? place.scope with
    | none => rfl
    | some m => simp [LoadedModule.declaration?, nothing m isModule]
  rw [Program.tagsOf_reference, Program.referent_of_unbound unbound]
  exact bind_pure _

theorem global {name : String} (notArray : (EntityName.plain name).isGlobalArray = false) :
    Denotes (.reference loc (.plain name) []) [(EntityName.plain name).globalTag] := by
  intro p origin entered place nothing
  rw [tagsOf_plain nothing, Program.tagsOfGlobal, notArray]
  rfl

theorem array {element : Ty} (denotes : element.Denotes tags) :
    Denotes (.reference loc (.plain "Array") [element]) [.array tags] := by
  intro p origin entered place nothing
  have isArray : (EntityName.plain "Array").isGlobalArray = true := by decide
  rw [tagsOf_plain nothing, Program.tagsOfGlobal, if_pos isArray]
  simp only [denotes p origin entered place nothing]
  rfl

/-- A union of types with one tag each has these tags, in order, if they differ. -/
theorem union {types : List Ty} (each : List.Forall₂ (fun t type => Denotes type [t]) tags types)
    (distinct : tags.Nodup) : Denotes (.union loc types) tags := by
  intro p origin entered place nothing
  have all : p.allTags origin entered place types = pure tags := by
    clear distinct
    induction each with
    | nil =>
      rw [Program.allTags]
    | cons denotes _ ih =>
      rw [Program.allTags, denotes p origin entered place nothing, ih]
      rfl
  rw [Program.tagsOf, all]
  show pure (Tag.merge [] tags) = _
  rw [Tag.merge_nil, eraseDups_of_nodup distinct]

end Ty.Denotes

namespace Tag

/-- The text of a tag says all about it, and so does that of each tag inside. -/
inductive Denotable : Tag → Prop
  | string : Denotable .string
  | number : Denotable .number
  | boolean : Denotable .boolean
  | object : Denotable .object
  | function : Denotable .function
  | any : Denotable .any
  | undefined : Denotable .undefined
  | array {elements : List Tag} (nonempty : elements ≠ []) (distinct : elements.Nodup)
      (each : ∀ t ∈ elements, Denotable t) : Denotable (.array elements)
  | literal {text : String} {kind : LiteralKind} (isLiteral : LiteralText text kind) :
      Denotable (.literal text kind)
  | named {name : String} (isGlobal : name ∈ globalConstructors) : Denotable (.named name true)

/-- The text of several tags is that of the first one, and the others behind bars. -/
theorem toList_unionText (t : Tag) (ts : List Tag) :
    (unionText (t :: ts)).toList
      = t.typeText.toList ++ barred (ts.map fun t => t.typeText.toList) := by
  induction ts generalizing t with
  | nil => simp [unionText, barred]
  | cons u us ih =>
    rw [unionText, String.toList_append, String.toList_append, ih u]
    · simp [barred]
    · simp

/-- Texts of single tags make the text of several ones. -/
theorem typeText_of_each {tags : List Tag} (nonempty : tags ≠ []) (distinct : tags.Nodup)
    (each : ∀ t ∈ tags, PlainText t.typeText.toList (Ty.Denotes · [t])) :
    TypeText (unionText tags).toList (Ty.Denotes · tags) := by
  obtain ⟨t, ts, rfl⟩ := List.exists_cons_of_ne_nil nonempty
  rw [toList_unionText]
  refine (TypeText.union each).mono fun type isUnion => ?_
  rcases isUnion with ⟨u, single, denotes⟩ | ⟨loc, types, rfl, denote⟩
  · rw [single]
    exact denotes
  · exact .union denote distinct

/-- The names of global constructors have no other meaning in a type. -/
theorem isTypeName_of_global {name : String} (isGlobal : name ∈ globalConstructors) :
    isTypeName name = true ∧ (EntityName.plain name).isGlobalArray = false ∧
      (EntityName.plain name).globalTag = .named name true := by
  simp only [globalConstructors, List.mem_cons, List.not_mem_nil, or_false] at isGlobal
  rcases isGlobal with rfl | rfl | rfl | rfl | rfl | rfl | rfl | rfl | rfl <;>
    decide +kernel

/-- The text of a denotable tag is a type with this tag. -/
theorem Denotable.plainText {t : Tag} (denotable : t.Denotable) :
    PlainText t.typeText.toList (Ty.Denotes · [t]) := by
  have keyword {name : String} {word : Keyword} {t : Tag} (known : keyword? name = some word)
      (letters : Lexer.isLetters name.toList = true) (tagged : word.tag? = some t) :
      PlainText name.toList (Ty.Denotes · [t]) := by
    refine (PlainText.keyword known letters).mono fun type isKeyword => ?_
    obtain ⟨loc, rfl⟩ := isKeyword
    exact .keyword tagged
  have global {name : String} {t : Tag} (isName : isTypeName name = true)
      (notArray : (EntityName.plain name).isGlobalArray = false)
      (tag : (EntityName.plain name).globalTag = t) : PlainText name.toList (Ty.Denotes · [t]) := by
    refine (PlainText.reference isName).mono fun type isReference => ?_
    obtain ⟨loc, rfl⟩ := isReference
    rw [← tag]
    exact .global notArray
  -- A tag is written as a keyword, as the name of a global or as a literal. Only an array has
  -- others inside.
  induction denotable with
  | string => exact keyword (rfl : keyword? "string" = _) (by decide) rfl
  | number => exact keyword (rfl : keyword? "number" = _) (by decide) rfl
  | boolean => exact keyword (rfl : keyword? "boolean" = _) (by decide) rfl
  | object => exact keyword (rfl : keyword? "object" = _) (by decide) rfl
  | any => exact keyword (rfl : keyword? "any" = _) (by decide) rfl
  | undefined => exact keyword (rfl : keyword? "undefined" = _) (by decide) rfl
  | function => exact global (by decide) (by decide) rfl
  | named isGlobal =>
    obtain ⟨isName, notArray, tag⟩ := isTypeName_of_global isGlobal
    exact global isName notArray tag
  | literal isLiteral => exact isLiteral.plain.mono fun type => .literal
  | @array elements nonempty distinct each ih =>
    obtain ⟨t, ts, rfl⟩ := List.exists_cons_of_ne_nil nonempty
    have written : (typeText (.array (t :: ts))).toList
        = "Array".toList ++ '<' :: ((unionText (t :: ts)).toList ++ ['>']) := by
      simp [typeText]
    rw [written]
    refine (PlainText.applied (by decide) (typeText_of_each nonempty distinct ih)).mono
      fun type isReference => ?_
    obtain ⟨loc, element, denotes, rfl⟩ := isReference
    exact .array denotes

/-- In a module that declares nothing, the text of tags is a type that has just these tags, in the
same order. It is read so as a whole text, and wherever a type may end behind it. -/
theorem tagsOf_unionText {tags : List Tag} (nonempty : tags ≠ []) (distinct : tags.Nodup)
    (each : ∀ t ∈ tags, t.Denotable) :
    TypeText (unionText tags).toList (Ty.Denotes · tags) ∧
    ∀ markup, ∃ type, readType markup (unionText tags) = .ok type ∧
      ∀ (p : Program) (place : Place), p.DeclaresNothing place.scope →
        (∀ origin entered, p.tagsOf origin entered place type = pure tags) ∧
        ∀ origin, (p.resolveType origin place type).value.map ResolvedType.tags = some tags := by
  have isType := typeText_of_each nonempty distinct fun t mem => (each t mem).plainText
  refine ⟨isType, fun markup => ?_⟩
  obtain ⟨type, denotes, reads⟩ := isType.exists_readType markup
  refine ⟨type, reads, fun p place nothing => ⟨fun origin entered => denotes p origin entered place
    nothing, fun origin => ?_⟩⟩
  have merged : merge [] tags = tags := by rw [merge_nil, eraseDups_of_nodup distinct]
  rw [Program.resolveType, denotes p origin [] place nothing, pure_bind]
  simp only [merged, List.isEmpty_iff, if_neg nonempty]
  split <;> rfl

/-- A module that declares nothing. -/
def silentFiles : Sources := .ofList [("/a.ts", .text "start()\n")]

/-- Two arrays, one inside of the other, a string, a number and a truth value among keywords and
names. -/
theorem tagsOf_unionText_nested :
    let tags : List Tag := [.string,
      .array [.number, .array [.literal "'a'" .string, .named "Date" true]],
      .literal "1" .number, .function, .literal "true" .boolean]
    tags ≠ [] ∧ tags.Nodup ∧ (∀ t ∈ tags, t.Denotable) ∧
      unionText tags = "string | Array<number | Array<'a' | Date>> | 1 | Function | true" ∧
      ∃ p type, Program.load silentFiles "/a.ts" = .ok p ∧ p.DeclaresNothing 0 ∧
        readType true (unionText tags) = .ok type ∧
        p.tagsOf 0 [] (.inside 0) type = pure tags := by
  intro tags
  have nonempty : tags ≠ [] := List.cons_ne_nil _ _
  have distinct : tags.Nodup := by decide
  have plain : ∀ c ∈ ['a'], c ≠ '\x27' ∧ c ≠ '\\' ∧ c ≠ '\n' ∧ c ≠ '\r' :=
    List.forall_mem_singleton.mpr (by decide)
  have quoted : LiteralText "'a'" .string := .unescaped (.inr rfl) plain
  have one : "1".toList = ['1'] := by decide
  have isDigit : ∀ d ∈ "1".toList, d.isDigit = true := one ▸ List.forall_mem_singleton.mpr rfl
  have digit : LiteralText "1" .number := .digits (one ▸ List.cons_ne_nil _ _) isDigit
  have word : LiteralText "true" .boolean := .boolean (.inl rfl)
  -- That the tags are denotable is shown from the innermost array outwards.
  have inner : ∀ t ∈ [Tag.literal "'a'" .string, .named "Date" true], t.Denotable := by
    simp only [List.mem_cons, List.not_mem_nil, or_false, forall_eq_or_imp, forall_eq]
    exact ⟨.literal quoted, .named (by decide)⟩
  have elements : ∀ t ∈ [Tag.number, .array [.literal "'a'" .string, .named "Date" true]],
      t.Denotable := by
    simp only [List.mem_cons, List.not_mem_nil, or_false, forall_eq_or_imp, forall_eq]
    exact ⟨.number, .array (by decide) (by decide) inner⟩
  have each : ∀ t ∈ tags, t.Denotable := by
    simp only [tags, List.mem_cons, List.not_mem_nil, or_false, forall_eq_or_imp, forall_eq]
    exact ⟨.string, .array (by decide) (by decide) elements, .literal digit, .function,
      .literal word⟩
  have loads : Program.loadsWith silentFiles "/a.ts" (fun p => (p.module? 0).all fun m =>
      m.declarations.isEmpty) = true := by
    refine Program.loadsWith_of_written (by repeat constructor) ?_
    decide +kernel
  obtain ⟨p, loaded, silent⟩ := Program.exists_of_loadsWith loads
  have nothing : p.DeclaresNothing 0 := by
    intro m isModule
    rw [isModule, Option.all_some, List.isEmpty_iff] at silent
    exact silent
  obtain ⟨-, reads⟩ := tagsOf_unionText nonempty distinct each
  obtain ⟨type, isType, denotes⟩ := reads true
  exact ⟨nonempty, distinct, each, by decide +kernel, p, type, loaded, nothing, isType,
    (denotes p (.inside 0) nothing).1 0 []⟩

end Tag

end TypedProps
