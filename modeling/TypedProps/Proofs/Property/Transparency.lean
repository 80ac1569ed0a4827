import TypedProps.Proofs.Pass.Components
import TypedProps.Proofs.Property.Listing

/-!
# `TypedProps.Proofs.Property.Transparency`: a name for a type has the members of the type

A reference that is followed to an alias has the properties of what the alias stands for, as the
module of the alias declares it, and notes the same problems (`propertiesOf_of_alias`). The two
expansions differ in one thing: the alias itself is under guard in one of them. That has no
influence if the expansion does not come back to the alias (`expandShape_congr`).
-/

set_option autoImplicit false

namespace TypedProps.Program

open Relation

variable {p : Program} {origin : ModuleId} {place : Place} {loc : Excerpt} {name : EntityName}
  {arguments : List Ty} {t : Symbol} {id : Identifier} {generics : List String} {body : Ty}

/-- The members of an alias are those of what it stands for, if that does not come back to the
alias. -/
theorem expandDeclared_of_alias {script : ModuleId} {span : Span}
    (declared : p.declaration? t = some (.typeAlias id generics body))
    (away : ¬ ReflTransGen p.Expands (.type (.inside t.module) body) (.declared t)) :
    p.expandDeclared origin [] script span t = p.expand origin [] (.inside t.module) body := by
  have entered : p.expandDeclared origin [] script span t
      = p.expand origin [t] (.inside t.module) body := by
    rw [expandDeclared_of_guard? (guard?_of_alias declared), if_neg List.not_mem_nil, expandGuarded,
      declared]
  have unreached : p.expandShape origin [t] script span (.type (.inside t.module) body)
      = p.expandShape origin [] script span (.type (.inside t.module) body) := by
    refine expandShape_congr fun u reaches => iff_of_false ?_ List.not_mem_nil
    rintro mem
    obtain rfl := List.mem_singleton.mp mem
    exact away reaches
  exact entered.trans unreached

/-- A reference that is followed to an alias has the properties of what the alias stands for, and
the same problems are noted. A pass collects the same and reports the same. -/
theorem propertiesOf_of_alias (p : Program) (origin : ModuleId) (place : Place) (loc : Excerpt)
    (name : EntityName) (arguments : List Ty) {t : Symbol} {id : Identifier}
    {generics : List String} {body : Ty} (follows : p.Follows place.scope name t)
    (declared : p.declaration? t = some (.typeAlias id generics body))
    (away : ¬ ReflTransGen p.Expands (.type (.inside t.module) body) (.declared t)) :
    p.propertiesOf origin place (.reference loc name arguments)
      = p.propertiesOf origin (.inside t.module) body ∧
    ∀ options before,
      Pass.propertiesOf p options origin place (.reference loc name arguments) ⟨before, [], []⟩
        = Pass.propertiesOf p options origin (.inside t.module) body ⟨before, [], []⟩ := by
  obtain ⟨s, bound, behind⟩ := (exists_behindImports?_iff declared (by simp)).mpr follows
  have same : p.propertiesOf origin place (.reference loc name arguments)
      = p.propertiesOf origin (.inside t.module) body := by
    rw [propertiesOf, expand_reference, bound]
    dsimp only
    rw [expandSymbol_eq, behind]
    dsimp only
    rw [expandDeclared_of_alias declared away, propertiesOf]
  refine ⟨same, fun options before => ?_⟩
  rw [Pass.computes_propertiesOf place _ before, Pass.computes_propertiesOf _ body before, same]

/-- An alias that comes to its user by a module that passes it on. A member refers to the alias, and
the alias does not expand to itself. -/
def reexportedFiles : Sources := .ofList [
  ("/a.ts", .text "import { Props } from './index'\nconst C = defineComponent<Props>({})\n"),
  ("/index.ts", .text "export { Props } from './model'\n"),
  ("/model.ts", .text "export type Props = { title: string; parent?: Props }\n")]

/-- The name and the type literal have the same properties. -/
theorem propertiesOf_of_alias_reexported :
    ∃ p id generics body, load reexportedFiles "/a.ts" = .ok p ∧
      p.Follows 0 (.plain "Props") ⟨2, "Props"⟩ ∧
      p.declaration? ⟨2, "Props"⟩ = some (.typeAlias id generics body) ∧
      ¬ ReflTransGen p.Expands (.type (.inside 2) body) (.declared ⟨2, "Props"⟩) ∧
      p.propertiesOf 0 (.inside 0) (.reference default (.plain "Props") [])
        = p.propertiesOf 0 (.inside 2) body ∧
      (p.propertiesOf 0 (.inside 2) body).value.map (·.name) = ["title", "parent"] := by
  have loads : loadsWith reexportedFiles "/a.ts" (fun p => decide
      ((aliasBody? (p.declaration? ⟨2, "Props"⟩)).bind literalNames?
          = some [some "title", some "parent"] ∧
        p.importOf? ⟨0, "Props"⟩ = some ([⟨importHop 0 false, 1⟩], "Props") ∧
        p.finding 1 "Props" = .elsewhere [⟨⟨.reexport, 1, false⟩, 2⟩] "Props" ∧
        p.finding 2 "Props" = .declared (some ⟨2, "Props"⟩) (ownHop 2 false) ∧
        p.importOf? ⟨2, "Props"⟩ = none ∧ p.wholeImport ⟨2, "Props"⟩ = [])) = true := by
    refine loadsWith_of_written (by repeat constructor) ?_
    decide +kernel
  obtain ⟨p, loaded, facts⟩ := exists_of_loadsWith loads
  obtain ⟨names, imported, index, model, stops, notWhole⟩ := of_decide_eq_true facts
  obtain ⟨body, isAlias, isLiteral⟩ := Option.bind_eq_some_iff.mp names
  obtain ⟨id, generics, declared⟩ := exists_of_aliasBody? isAlias
  obtain ⟨loc, members, rfl, keys⟩ := exists_of_literalNames? isLiteral
  -- The import leads to the index module, and its re-export to the alias.
  have inside : p.Search [⟨⟨.reexport, 1, false⟩, 2⟩] "Props"
      (some ⟨⟨2, "Props"⟩, [⟨.reexport, 1, false⟩, ownHop 2 false]⟩) 1 := .declared model
  have follows : p.Follows 0 (.plain "Props") ⟨2, "Props"⟩ :=
    .plain rfl (.of_search imported (.through index inside) stops notWhole)
      (by decide : 2 ≤ maxHops)
  -- A type literal expands to no other shape.
  have away : ¬ ReflTransGen p.Expands (.type (.inside 2) (.object loc members))
      (.declared ⟨2, "Props"⟩) := by
    intro reaches
    obtain ⟨⟨⟩⟩ | ⟨next, step, -⟩ := ReflTransGen.cases_head reaches
    cases step
  obtain ⟨same, -⟩ := propertiesOf_of_alias p 0 (.inside 0) default (.plain "Props") [] follows
    declared away
  refine ⟨p, id, generics, _, loaded, follows, declared, away, same, ?_⟩
  have listed : (p.propertiesOfMembers 0 (.inside 2) members).value.map (·.name)
      = ["title", "parent"] := by
    rw [← propertiesAt_map, map_name_propertiesAt, List.map_map]
    show (members.map Member.key?).filterMap usableName? = _
    rw [keys]
    rfl
  show (Property.firsts (p.expand 0 [] (.inside 2) (.object loc members)).value).map (·.name) = _
  rw [expand, Property.firsts_eq_self (by rw [listed]; decide), listed]

end TypedProps.Program
