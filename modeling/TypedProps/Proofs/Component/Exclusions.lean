import TypedProps.Proofs.Component.Shapes
import TypedProps.Proofs.Grammar.Keys
import TypedProps.Proofs.Pass.Steps
import TypedProps.Proofs.Program.Scripts

/-!
# `TypedProps.Proofs.Component.Exclusions`: what is declared by hand is not generated

The options of a component may list props and events by hand (`ListsByHand`). A component has the
properties that the same types give without options, in the same order, except for those whose names
are listed (`componentOfVariable_without_byHand`).

Names are compared, not keys. A key that is a word or a string is one name wherever it is written.
A numeral in a type has its spelling for a name and one in an object the number, so it is left out
if it is spelled the way the number is written. Else the property is declared a second time
(`componentOfVariable_hexadecimal`).
-/

set_option autoImplicit false

namespace TypedProps

/-! ### Names under the options -/

/-- Under some keys, the options of a component list a name: as a key of an object or as a string in
an array. -/
inductive ListsByHand (keys : List String) (properties : List ObjectProperty) : String → Prop
  | key {loc loc' : Span} {key name : String} {value : Expr} {entries : List ObjectProperty}
      {entry : ObjectProperty} (listed : .keyValue loc (some key) value ∈ properties)
      (under : key ∈ keys) (object : value.unparenthesized = .object loc' entries)
      (mem : entry ∈ entries) (named : Descriptor.key? entry = some name) :
      ListsByHand keys properties name
  | element {loc loc' at' : Span} {key name : String} {value : Expr} {elements : List Argument}
      (listed : .keyValue loc (some key) value ∈ properties) (under : key ∈ keys)
      (array : value.unparenthesized = .array loc' elements)
      (mem : .plain (.string at' name) ∈ elements) : ListsByHand keys properties name

/-- The names that are read from the options are those that are listed. -/
theorem mem_byHand_iff {keys : List String} {properties : List ObjectProperty} {name : String} :
    name ∈ byHand keys properties ↔ ListsByHand keys properties name := by
  unfold byHand
  rw [List.mem_flatMap]
  constructor
  · rintro ⟨property, listed, mem⟩
    -- The names are keys of an object or the strings of an array.
    unfold ObjectProperty.namesUnder at mem
    split at mem
    · split at mem
      · rename_i under
        unfold listedNames at mem
        split at mem
        · rename_i object
          obtain ⟨entry, inside, named⟩ := List.mem_filterMap.mp mem
          exact .key listed under object inside named
        · rename_i array
          obtain ⟨element, inside, named⟩ := List.mem_filterMap.mp mem
          split at named
          · obtain rfl := Option.some.inj named
            exact .element listed under array inside
          · cases named
        · cases mem
      · cases mem
    · cases mem
  · intro lists
    cases lists with
    | key listed under object mem named =>
      refine ⟨_, listed, ?_⟩
      unfold ObjectProperty.namesUnder listedNames
      dsimp only
      rw [if_pos under, object]
      exact List.mem_filterMap.mpr ⟨_, mem, named⟩
    | element listed under array mem =>
      refine ⟨_, listed, ?_⟩
      unfold ObjectProperty.namesUnder listedNames
      dsimp only
      rw [if_pos under, array]
      exact List.mem_filterMap.mpr ⟨_, mem, rfl⟩

/-! ### Components without these names -/

/-- Which properties are left. -/
theorem Property.mem_without_iff {names : List String} {list : List Property} {q : Property} :
    q ∈ Property.without names list ↔ q ∈ list ∧ q.name ∉ names := by
  simp [Property.without]

/-- A component without some of its props and events. -/
def Component.without (props events : List String) (c : Component) : Component :=
  ⟨Property.without props c.props, Property.without events c.events, c.slots⟩

namespace Program

variable {p p' : Program} {options : Options} {origin script : ModuleId}

/-- Names are left out after the properties are collected. -/
theorem value_propertiesWithout (excluded : List String) (type : Option Ty) :
    (p.propertiesWithout origin script excluded type).value
      = Property.without excluded (p.propertiesWithout origin script [] type).value := by
  cases type with
  | none => rfl
  | some type =>
    have all (list : List Property) : Property.without [] list = list := by simp [Property.without]
    show Property.without excluded _ = Property.without excluded (Property.without [] _)
    rw [all]

/-- The component of some types, with and without names that are listed by hand. -/
theorem value_componentOf_without (sources : TypeSources) (props events : List String) :
    (p.componentOf origin script ⟨sources, props, events⟩).value
      = (p.componentOf origin script ⟨sources, [], []⟩).value.map
          (Component.without props events) := by
  unfold componentOf
  cases written : sources.props with
  | none => rfl
  | some type =>
    simp only [Noted.bind_value, Noted.pure_value, Option.map_some, Component.without,
      ← value_propertiesWithout]

/-- The properties that a component has are those that the same types give without options, in the
same order, without those whose names are listed by hand. The programs have one outline, and the
second variable may have any shape and other options, as long as these list no names.

A key that is written alike in the options and in the types has one name, unless it is a numeral
whose number is written in another way. -/
theorem componentOfVariable_without_byHand (options : Options) (origin script : ModuleId)
    (alike : p'.outline = p.outline) {v v' : Variable} {name : String}
    {explicit explicit' : List Ty} {parameters parameters' : List Pattern}
    {properties properties' : List ObjectProperty}
    (named : v.pattern.name = some name) (named' : v'.pattern.name = some name)
    (shape : TypedProps.Shape options v explicit parameters properties)
    (shape' : TypedProps.Shape options v' explicit' parameters' properties')
    (same : (typeSources explicit' parameters').moved Span.forget
      = (typeSources explicit parameters).moved Span.forget)
    (nothing : byHand ["props", "events", "emits"] properties' = []) :
    (p.componentOfVariable options origin script v).value
        = (p'.componentOfVariable options origin script v').value.map (fun pair => (pair.1,
            pair.2.without (byHand ["props"] properties) (byHand ["events", "emits"] properties))) ∧
      ∀ bare, (p'.componentOfVariable options origin script v').value = some (name, bare) →
        ∃ c, (p.componentOfVariable options origin script v).value = some (name, c) ∧
          c.slots = bare.slots ∧
          (∀ q, q ∈ c.props ↔ q ∈ bare.props ∧ ¬ ListsByHand ["props"] properties q.name) ∧
          (∀ q, q ∈ c.events ↔
            q ∈ bare.events ∧ ¬ ListsByHand ["events", "emits"] properties q.name) ∧
          ∀ kind written declared, Grammar.keyName? Decimal.numeralText kind = some written →
            Grammar.keyName? id kind = some declared →
            (∀ spelling, kind = .number spelling → Decimal.numeralText spelling = spelling) →
            (ListsByHand ["props"] properties written → ∀ q ∈ c.props, q.name ≠ declared) ∧
            (ListsByHand ["events", "emits"] properties written →
              ∀ q ∈ c.events, q.name ≠ declared) := by
  have filtered : (p.componentOfVariable options origin script v).value
      = (p'.componentOfVariable options origin script v').value.map (fun pair => (pair.1,
          pair.2.without (byHand ["props"] properties)
            (byHand ["events", "emits"] properties))) := by
    have sameComponent : (p'.componentOf origin script (recognizedBy explicit' parameters'
          properties')).value
        = (p.componentOf origin script ⟨typeSources explicit parameters, [], []⟩).value := by
      refine value_componentOf_congr alike ?_
      unfold recognizedBy Recognized.moved
      rw [same, byHand_eq_nil (by decide) nothing, byHand_eq_nil (by decide) nothing]
    rw [p.value_componentOfVariable origin script named shape,
      p'.value_componentOfVariable origin script named' shape', sameComponent]
    unfold recognizedBy
    rw [value_componentOf_without, Option.map_map, Option.map_map]
    rfl
  refine ⟨filtered, fun bare recorded => ?_⟩
  rw [recorded] at filtered
  have props (q : Property) : q ∈ Property.without (byHand ["props"] properties) bare.props ↔
      q ∈ bare.props ∧ ¬ ListsByHand ["props"] properties q.name := by
    rw [Property.mem_without_iff, mem_byHand_iff]
  have events (q : Property) :
      q ∈ Property.without (byHand ["events", "emits"] properties) bare.events ↔
        q ∈ bare.events ∧ ¬ ListsByHand ["events", "emits"] properties q.name := by
    rw [Property.mem_without_iff, mem_byHand_iff]
  refine ⟨_, filtered, rfl, props, events, ?_⟩
  intro kind written declared inObject inType plain
  -- A numeral that is its own text has one name, as all other keys do.
  obtain rfl : written = declared := by
    rcases Grammar.eq_or_eq_numeral_of_keyName? inObject inType with same | ⟨numeral, text⟩
    · exact same
    · exact text.trans (plain declared numeral)
  constructor
  · rintro lists q mem rfl
    exact ((props q).mp mem).2 lists
  · rintro lists q mem rfl
    exact ((events q).mp mem).2 lists

/-- The types `{ a: string, 16: string }` and `{ change: string }`. -/
def keyTypes : List Ty :=
  [ .object (textAt 26 "{ a: string, 16: string }")
      [ .property (textAt 28 "a: string,") [] (some "a") false
          (some (.keyword (textAt 31 "string") .string)),
        .property (textAt 39 "16: string") [] (some "16") false
          (some (.keyword (textAt 43 "string") .string)) ],
    .object (textAt 53 "{ change: string }")
      [.property (textAt 55 "change: string") [] (some "change") false
        (some (.keyword (textAt 63 "string") .string))] ]

/-- The options `{ props: { 16: String }, emits: ["change"] }`. -/
def keyOptions : List ObjectProperty :=
  [ .keyValue ⟨75, 96⟩ (some "props") (.object ⟨82, 96⟩
      [.keyValue ⟨84, 94⟩ (some "16") (.name ⟨88, 94⟩ "String")]),
    .keyValue ⟨98, 115⟩ (some "emits") (.array ⟨105, 115⟩ [.plain (.string ⟨106, 114⟩ "change")]) ]

/-- The variable `C = defineComponent<..>({ .. })` with these types and some options. -/
def keyVariable (properties : List ObjectProperty) : Variable :=
  ⟨⟨some "C", none⟩, some (.call ⟨10, 118⟩ (.name ⟨10, 25⟩ "defineComponent") keyTypes
    [.plain (.object ⟨73, 117⟩ properties)])⟩

/-- A prop whose name is a number and an event are left out, because both are listed by hand. -/
theorem componentOfVariable_without_byHand_numeral :
    TypedProps.Shape .standard (keyVariable keyOptions) keyTypes (setupParameters keyOptions)
      keyOptions ∧
    byHand ["props", "events", "emits"] [] = [] ∧
    ∃ bare c, ((single []).componentOfVariable .standard 0 0 (keyVariable [])).value
          = some ("C", bare) ∧
        ((single []).componentOfVariable .standard 0 0 (keyVariable keyOptions)).value
          = some ("C", c) ∧
        c.slots = bare.slots ∧ (∀ q ∈ c.props, q.name ≠ "16") ∧
        ∀ q ∈ c.events, q.name ≠ "change" := by
  have shape (properties : List ObjectProperty) : TypedProps.Shape .standard
      (keyVariable properties) keyTypes (setupParameters properties) properties := .object rfl rfl rfl
  have alike : (single []).outline = (single []).outline := rfl
  have named (properties : List ObjectProperty) :
      (keyVariable properties).pattern.name = some "C" := rfl
  have recorded : ∃ bare, ((single []).componentOfVariable .standard 0 0 (keyVariable [])).value
      = some ("C", bare) := by
    rw [value_componentOfVariable _ _ _ rfl (shape [])]
    exact ⟨_, rfl⟩
  obtain ⟨bare, recorded⟩ := recorded
  obtain ⟨-, without⟩ := componentOfVariable_without_byHand .standard 0 0 alike (named keyOptions)
    (named []) (shape keyOptions) (shape []) rfl rfl
  obtain ⟨c, recorded', slots, -, -, alike⟩ := without bare recorded
  have numeral := alike (.number "16") "16" "16"
    (congrArg some Grammar.numeralText_sixteen.1) rfl
    (by rintro _ ⟨⟩; exact Grammar.numeralText_sixteen.1)
  have word := alike (.string "change") "change" "change" rfl rfl nofun
  exact ⟨shape _, rfl, bare, c, recorded, recorded', slots,
    numeral.1 (mem_byHand_iff.1 (by decide)), word.2 (mem_byHand_iff.1 (by decide))⟩

/-- A prop that is declared by hand with the key that it has in the type, a hexadecimal number. -/
def hexadecimalFiles : Sources := .ofList
  [("/a.ts", .text "const C = defineComponent<{ 0x10: string }>({ props: { 0x10: String } })\n")]

/-- Whether a type has one member, with the key `0x10`. -/
def hasHexadecimalKey : Option Ty → Bool
  | some (.object _ members) => decide (members.map Member.key? = [some "0x10"])
  | _ => false

/-- Whether a module has one variable, `C`, which is a component with such a type for its props and
declares the prop `16` by hand. -/
def declaresNumeral (m : LoadedModule) : Bool :=
  match m.items.flatMap Item.variables with
  | [⟨⟨some "C", type⟩, some init⟩] =>
    (Recognized.ofVariable .standard 0 type init).value.any fun r =>
      decide (r.excludedProps = ["16"]) && hasHexadecimalKey r.sources.props
  | _ => false

/-- In `hexadecimalFiles` the prop is generated, although its key is listed by hand. -/
theorem componentOfVariable_hexadecimal :
    ∃ p m v explicit parameters properties written c,
      Program.load hexadecimalFiles "/a.ts" = .ok p ∧ p.module? 0 = some m ∧
      m.items.flatMap Item.variables = [v] ∧
      TypedProps.Shape .standard v explicit parameters properties ∧
      Grammar.keyName? Decimal.numeralText (.number "0x10") = some written ∧
      Grammar.keyName? id (.number "0x10") = some "0x10" ∧
      ListsByHand ["props"] properties written ∧
      (p.componentOfVariable .standard 0 0 v).value = some ("C", c) ∧
      ∃ q ∈ c.props, q.name = "0x10" := by
  have loads : loadsWith hexadecimalFiles "/a.ts" (fun p => (p.module? 0).any declaresNumeral)
      = true := by
    refine loadsWith_of_written (by repeat constructor) ?_
    decide +kernel
  obtain ⟨p, loaded, facts⟩ := exists_of_loadsWith loads
  obtain ⟨m, module, facts⟩ := (Option.any_eq_true _ _).mp facts
  unfold declaresNumeral at facts
  split at facts
  · rename_i type init single
    obtain ⟨r, recognized, facts⟩ := (Option.any_eq_true _ _).mp facts
    rw [Bool.and_eq_true] at facts
    obtain ⟨excluded, facts⟩ := facts
    unfold hasHexadecimalKey at facts
    split at facts
    · rename_i loc members written
      have excluded : r.excludedProps = ["16"] := of_decide_eq_true excluded
      obtain ⟨explicit, parameters, properties, shape⟩ :=
        Recognized.exists_shape_of_ofVariable ⟨some "C", type⟩ recognized
      obtain ⟨_, initialized, recognized'⟩ := Recognized.value_ofVariable_of_shape shape 0
      obtain rfl := Option.some.inj initialized
      obtain rfl := Option.some.inj (recognized.symm.trans recognized')
      have recorded := p.value_componentOfVariable 0 0 (rfl : _ = some "C") shape
      obtain ⟨c, component, props⟩ : ∃ c, (p.componentOf 0 0
            (recognizedBy explicit parameters properties)).value = some c ∧
          c.props = Property.without ["16"]
            (p.propertiesOf 0 ⟨0, 0⟩ (.object loc members)).value := by
        unfold componentOf
        rw [written, excluded]
        exact ⟨_, rfl, rfl⟩
      rw [component] at recorded
      -- The one member of the type is called "0x10".
      obtain ⟨member, rfl, key⟩ := List.map_eq_singleton_iff.mp (of_decide_eq_true facts)
      have mem : "0x10" ∈ (p.propertiesOf 0 ⟨0, 0⟩ (.object loc [member])).value.map (·.name) :=
        Property.mem_map_name_firsts_iff.mpr (mem_map_name_expand_iff.2 ⟨by decide, ⟨0, 0⟩,
          member, ⟨_, .refl, .object (List.mem_singleton_self member)⟩, key⟩)
      obtain ⟨q, mem, name⟩ := List.mem_map.mp mem
      have lists : ListsByHand ["props"] properties "16" := by
        rw [← mem_byHand_iff, show byHand ["props"] properties = ["16"] from excluded]
        exact List.mem_singleton_self "16"
      refine ⟨p, m, _, explicit, parameters, properties, "16", c, loaded, module, single, shape,
        congrArg some Grammar.numeralText_sixteen.2, rfl, lists, recorded, q, ?_, name⟩
      rw [props, Property.mem_without_iff, name]
      exact ⟨mem, by decide⟩
    · cases facts
  · cases facts

end Program

end TypedProps
