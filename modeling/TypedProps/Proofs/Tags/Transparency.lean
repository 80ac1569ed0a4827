import TypedProps.Proofs.Tags.Reachability
import TypedProps.Proofs.Tags.Recursion

/-!
# `TypedProps.Proofs.Tags.Transparency`: what an import does to the tags of an alias

The tags of a name that is imported are those of the alias that the import leads to, as the module
of the alias reads them, if the alias does not refer to itself. An import for types only takes the
constructors away from them, whatever they come from (`tagsOf_of_imported_alias`). For a class that
is right, because its name is not there at run time. A global name in the module of the alias is
there all the same, and loses its constructor too (`tags_of_marked_import`).
-/

set_option autoImplicit false

namespace TypedProps

namespace Tag

/-- Only a name that has a constructor has one to lose. -/
theorem erased_eq_self {t : Tag} (without : ∀ name, t ≠ .named name true) : t.erased = t := by
  cases t with
  | named name constructible =>
    cases constructible with
    | false => rfl
    | true => exact absurd rfl (without name)
  | _ => rfl

/-- Tags none of which has a name with a constructor have nothing to lose. -/
theorem map_erased_eq_self {tags : List Tag} (without : ∀ name, .named name true ∉ tags) :
    tags.map erased = tags := by
  have same (t : Tag) (mem : t ∈ tags) : t.erased = t :=
    erased_eq_self fun name is => without name (is ▸ mem)
  rw [List.map_congr_left same, List.map_id']

end Tag

namespace Program

open Relation

variable {p : Program} {origin : ModuleId} {s t : Symbol} {id : Identifier}
  {generics : List String} {body : Ty}

/-- A type has the tags that it resolves to, if there are any. -/
theorem map_tags_resolveType (place : Place) (type : Ty) :
    (p.resolveType origin place type).value.map (·.tags)
      = let tags := Tag.merge [] (p.tagsOf origin [] place type).value
        if tags.isEmpty then none else some tags := by
  unfold resolveType
  rw [Noted.bind_value]
  dsimp only
  split
  · rfl
  · split <;> rfl

/-- A tag is among those of a resolved type if they are the tags of a type that has it. -/
theorem mem_tagsOf_of_map_tags_eq {place place' : Place} {type type' : Ty} {t : Tag}
    (same : (p.resolveType origin place type).value.map (·.tags)
      = (p.resolveType origin place' type').value.map (·.tags))
    (mem : t ∈ (p.tagsOf origin [] place' type').value) :
    t ∈ (p.tagsOf origin [] place type).value := by
  obtain ⟨resolved', eq', inside⟩ := mem_resolveType_iff.2 mem
  rw [eq', Option.map_some] at same
  obtain ⟨resolved, eq, tags⟩ := Option.map_eq_some_iff.mp same
  exact mem_resolveType_iff.1 ⟨resolved, eq, tags ▸ inside⟩

/-- The tags of an alias are those of what it stands for, if that is not read on the way from
itself. -/
theorem tagsOfReferent_of_alias {place : Place} {loc : Excerpt} {name : EntityName}
    {arguments : List Ty} (declared : p.declaration? t = some (.typeAlias id generics body))
    (acyclic : ¬ TransGen p.Reads (.symbol t) (.symbol t)) :
    p.tagsOfReferent origin [] place loc name arguments (some t)
      = p.tagsOf origin [] (.inside t.module) body := by
  simp only [tagsOfReferent, declared, List.not_mem_nil, if_false]
  refine tagsOf_congr fun u reads => iff_of_false ?_ List.not_mem_nil
  intro mem
  obtain rfl := List.mem_singleton.mp mem
  exact acyclic (.head' (.body declared) reads)

/-- The tags of a name that is bound to an import are those of the alias that the import leads to,
without constructors if the import is for types only. -/
theorem tagsOf_of_aliased? (origin : ModuleId) (place : Place) (loc : Excerpt)
    {name : EntityName} (arguments : List Ty) (bound : p.symbolAt place.scope name = some s)
    (leads : p.aliased? s = some t)
    (declared : p.declaration? t = some (.typeAlias id generics body))
    (acyclic : ¬ TransGen p.Reads (.symbol t) (.symbol t)) :
    p.tagsOf origin [] place (.reference loc name arguments)
      = (fun tags => if p.isTypeOnly s then tags.map Tag.erased else tags)
          <$> p.tagsOf origin [] (.inside t.module) body := by
  rw [tagsOf_reference, referent_of_aliased? bound leads, tagsOfReferent_of_alias declared acyclic,
    bind_pure_comp]

/-- A name that is bound to an import has the tags of the alias that the import leads to, without
constructors if the import is for types only. So it resolves to the tags that the type has where the
alias is declared, unless the import is for types only and one of the tags has a constructor. -/
theorem tagsOf_of_imported_alias (p : Program) (origin : ModuleId) (place : Place) (loc : Excerpt)
    (name : EntityName) (arguments : List Ty) {s t : Symbol} {id : Identifier}
    {generics : List String} {body : Ty} (bound : p.symbolAt place.scope name = some s)
    (leads : p.aliased? s = some t)
    (declared : p.declaration? t = some (.typeAlias id generics body))
    (acyclic : ¬ TransGen p.Reads (.symbol t) (.symbol t)) :
    p.tagsOf origin [] place (.reference loc name arguments)
      = (fun tags => if p.isTypeOnly s then tags.map Tag.erased else tags)
          <$> p.tagsOf origin [] (.inside t.module) body ∧
    ((p.resolveType origin place (.reference loc name arguments)).value.map (·.tags)
        = (p.resolveType origin (.inside t.module) body).value.map (·.tags) ↔
      p.isTypeOnly s = false ∨
        ∀ n, .named n true ∉ (p.tagsOf origin [] (.inside t.module) body).value) := by
  have tags := tagsOf_of_aliased? origin place loc arguments bound leads declared acyclic
  refine ⟨tags, ?_⟩
  constructor
  · intro same
    by_contra differs
    obtain ⟨typeOnly, constructible⟩ := not_or.mp differs
    obtain ⟨n, mem⟩ := not_forall_not.mp constructible
    have kept := mem_tagsOf_of_map_tags_eq same mem
    rw [tags, Noted.map_value, if_pos (Bool.not_eq_false _ ▸ typeOnly)] at kept
    obtain ⟨u, -, is⟩ := List.mem_map.mp kept
    exact Tag.erased_ne_constructible is
  · intro agrees
    rw [map_tags_resolveType, map_tags_resolveType, tags, Noted.map_value]
    rcases agrees with marked | without
    · rw [marked, if_neg Bool.false_ne_true]
    · rw [Tag.map_erased_eq_self without, ite_self]

/-! ### An alias of a global name -/

/-- A module that imports an alias of a global class, for types only or not. -/
def dateFiles (typeOnly : Bool) : Sources := .ofList [
  ("/a.ts", .text ((if typeOnly then "import type" else "import")
    ++ " { D } from './d'\nconst C = defineComponent<{ when: D }>({})\n")),
  ("/d.ts", .text "export type D = Date\n")]

/-- In `dateFiles` the import leads to the alias, which is the only one, and the type that it stands
for has a constructor. -/
theorem exists_dateFiles (typeOnly : Bool) :
    ∃ p id generics spot, load (dateFiles typeOnly) "/a.ts" = .ok p ∧
      p.symbolAt 0 (.plain "D") = some ⟨0, "D"⟩ ∧ p.aliased? ⟨0, "D"⟩ = some ⟨1, "D"⟩ ∧
      p.isTypeOnly ⟨0, "D"⟩ = typeOnly ∧ p.declaration? ⟨1, "D"⟩
        = some (.typeAlias id generics (.reference spot (.plain "Date") [])) ∧
      (∀ s, ¬ TransGen p.Reads (.symbol s) (.symbol s)) ∧
      (p.tagsOf 0 [] (.inside 1) (.reference spot (.plain "Date") [])).value
        = [.named "Date" true] := by
  have loads : loadsWith (dateFiles typeOnly) "/a.ts" (fun p =>
      (aliasBody? (p.declaration? ⟨1, "D"⟩)).any (isReferenceTo "Date") && decide
        (p.symbols.filter (fun s => (aliasBody? (p.declaration? s)).isSome) = [⟨1, "D"⟩] ∧
          p.symbolAt 0 (.plain "D") = some ⟨0, "D"⟩ ∧ p.symbolAt 1 (.plain "Date") = none ∧
          p.importOf? ⟨0, "D"⟩ = some ([⟨importHop 0 typeOnly, 1⟩], "D") ∧
          p.finding 1 "D" = .declared (some ⟨1, "D"⟩) (ownHop 1 false) ∧
          p.importOf? ⟨1, "D"⟩ = none ∧ p.wholeImport ⟨1, "D"⟩ = [])) = true := by
    cases typeOnly
    all_goals
      refine loadsWith_of_written (by repeat constructor) ?_
      decide +kernel
  obtain ⟨p, loaded, facts⟩ := exists_of_loadsWith loads
  obtain ⟨isAlias, facts⟩ := Bool.and_eq_true_iff.mp facts
  obtain ⟨body, isAlias, isDate⟩ := (Option.any_eq_true _ _).mp isAlias
  obtain ⟨id, generics, declared⟩ := exists_of_aliasBody? isAlias
  obtain ⟨spot, rfl⟩ := exists_of_isReferenceTo isDate
  obtain ⟨aliases, bound, unbound, imported, found, stops, notWhole⟩ := of_decide_eq_true facts
  have walk : p.Walk ⟨0, "D"⟩ ⟨⟨1, "D"⟩, [importHop 0 typeOnly, ownHop 1 false]⟩ 1 :=
    .of_search imported (.declared found) stops notWhole
  have within : 1 ≤ maxHops := by decide
  have leads : p.aliased? ⟨0, "D"⟩ = some ⟨1, "D"⟩ :=
    aliased?_eq_some_iff.2 ⟨by rw [imported]; rfl, _, _, walk, rfl, within⟩
  have mark : p.isTypeOnly ⟨0, "D"⟩ = typeOnly := by
    rw [isTypeOnly, marked_of_walk walk within]
    cases typeOnly <;> rfl
  have undeclared : p.typeDeclared? 1 (.plain "Date") = none := by
    rw [typeDeclared?, referent, unbound]
    rfl
  have acyclic (s : Symbol) : ¬ TransGen p.Reads (.symbol s) (.symbol s) := by
    intro cycle
    obtain ⟨next, step, back⟩ := TransGen.head'_iff.mp cycle
    cases step with
    | body declared' =>
      have among : s ∈ p.symbols.filter (fun s => (aliasBody? (p.declaration? s)).isSome) :=
        List.mem_filter.mpr ⟨mem_symbols_of_declaration? declared', by rw [declared']; rfl⟩
      rw [aliases, List.mem_singleton] at among
      subst among
      obtain ⟨-, -, rfl⟩ :=
        Declaration.typeAlias.inj (Option.some.inj (declared.symm.trans declared'))
      -- Nothing is read on the way from a global name without arguments.
      obtain ⟨⟨⟩⟩ | ⟨next, step, -⟩ := ReflTransGen.cases_head back
      cases step with
      | inner inside => obtain ⟨⟨⟩⟩ | ⟨⟨⟩⟩ := inside
      | reference declared' => cases undeclared.symm.trans declared'
  refine ⟨p, id, generics, spot, loaded, bound, leads, mark, declared, acyclic, ?_⟩
  have here : p.referent (Place.inside 1).scope (.plain "Date") = (none, false) := by
    have nothing : p.symbolAt (Place.inside 1).scope (.plain "Date") = none := unbound
    rw [referent, nothing]
  rw [tagsOf_reference, here]
  rfl

/-- Without a mark on the import the name has the tags of the alias. -/
theorem tagsOf_of_imported_alias_plain :
    ∃ p id generics body, load (dateFiles false) "/a.ts" = .ok p ∧
      p.symbolAt 0 (.plain "D") = some ⟨0, "D"⟩ ∧ p.aliased? ⟨0, "D"⟩ = some ⟨1, "D"⟩ ∧
      p.declaration? ⟨1, "D"⟩ = some (.typeAlias id generics body) ∧
      ¬ TransGen p.Reads (.symbol ⟨1, "D"⟩) (.symbol ⟨1, "D"⟩) ∧
      (p.resolveType 0 (.inside 0) (.reference default (.plain "D") [])).value.map (·.tags)
        = (p.resolveType 0 (.inside 1) body).value.map (·.tags) ∧
      (p.tagsOf 0 [] (.inside 0) (.reference default (.plain "D") [])).value
        = [.named "Date" true] := by
  obtain ⟨p, id, generics, spot, loaded, bound, leads, mark, declared, acyclic, tags⟩ :=
    exists_dateFiles false
  obtain ⟨same, resolved⟩ := tagsOf_of_imported_alias p 0 (.inside 0) default (.plain "D") [] bound
    leads declared (acyclic _)
  refine ⟨p, id, generics, _, loaded, bound, leads, declared, acyclic _,
    resolved.mpr (Or.inl mark), ?_⟩
  rw [same, Noted.map_value, mark]
  exact tags

/-- With a mark on the import the constructor is lost, although it is that of a global name. -/
theorem tags_of_marked_import :
    ∃ p id generics body, load (dateFiles true) "/a.ts" = .ok p ∧
      p.symbolAt 0 (.plain "D") = some ⟨0, "D"⟩ ∧ p.aliased? ⟨0, "D"⟩ = some ⟨1, "D"⟩ ∧
      p.declaration? ⟨1, "D"⟩ = some (.typeAlias id generics body) ∧
      (∀ s, ¬ TransGen p.Reads (.symbol s) (.symbol s)) ∧
      (p.resolveType 0 (.inside 0) (.reference default (.plain "D") [])).value.map (·.tags)
        = some [.named "Date" false] ∧
      (p.resolveType 0 (.inside 1) body).value.map (·.tags) = some [.named "Date" true] := by
  obtain ⟨p, id, generics, spot, loaded, bound, leads, mark, declared, acyclic, tags⟩ :=
    exists_dateFiles true
  have erased : (p.tagsOf 0 [] (.inside 0) (.reference default (.plain "D") [])).value
      = [.named "Date" false] := by
    rw [tagsOf_of_aliased? 0 (.inside 0) default [] bound leads declared (acyclic _),
      Noted.map_value, mark]
    exact congrArg (List.map Tag.erased) tags
  refine ⟨p, id, generics, _, loaded, bound, leads, declared, acyclic, ?_, ?_⟩
  · rw [map_tags_resolveType, erased]
    decide
  · rw [map_tags_resolveType, tags]
    decide

end Program

end TypedProps
