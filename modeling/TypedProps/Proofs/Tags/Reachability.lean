import TypedProps.Proofs.Paths.NormalForm
import TypedProps.Proofs.Tags.Followed

/-!
# `TypedProps.Proofs.Tags.Reachability`: every leaf that can be reached counts

`exists_leaf_of_mem_tagsOf` says that the tags of a type come from its leaves. This module has the
other direction. The resolution keeps a list of the aliases that it has entered and enters none of
them again, so of the ways to a leaf it follows only some: those that come through no alias twice
(`Program.ReachesOutside`). They are enough. What stands behind an alias does not depend on how the
alias was reached, so a way that comes back to it can be cut short (`reachesOutside_cons`).
-/

set_option autoImplicit false

namespace TypedProps

namespace Tag

/-- Whether a tag is neither an array nor a name. -/
def isPlain : Tag → Bool
  | .array _ | .named _ _ => false
  | _ => true

end Tag

namespace Program

variable {p : Program} {origin : ModuleId}

/-! ### Ways that avoid some aliases -/

/-- A step from a type to one from which it takes its tags, into none of some aliases. -/
inductive StepOutside (p : Program) (entered : List Symbol) :
    ModuleId × Ty → ModuleId × Ty → Prop
  | part {m : ModuleId} {inner type : Ty} (part : Part inner type) :
      StepOutside p entered (m, type) (m, inner)
  | alias {m : ModuleId} {loc : Excerpt} {name : EntityName} {arguments : List Ty} {s : Symbol}
      {id : Identifier} {generics : List String} {body : Ty}
      (declared : p.typeDeclared? m name = some (s, .typeAlias id generics body))
      (fresh : s ∉ entered) :
      StepOutside p entered (m, .reference loc name arguments) (s.module, body)

/-- `p.ReachesOutside entered x y`: a type takes its tags from a second one, by a way that enters
none of some aliases. -/
abbrev ReachesOutside (p : Program) (entered : List Symbol) :
    ModuleId × Ty → ModuleId × Ty → Prop :=
  Relation.ReflTransGen (p.StepOutside entered)

/-- Where nothing has been entered, every way is open. -/
theorem Reaches.outside {x y : ModuleId × Ty} (reaches : p.Reaches x y) :
    p.ReachesOutside [] x y := by
  refine Relation.ReflTransGen.mono (fun a b step => ?_) _ _ reaches
  cases step with
  | part part => exact .part part
  | «alias» declared => exact .alias declared List.not_mem_nil

/-- A way that avoids some aliases avoids one more, or else there is such a way from what that one
stands for. -/
theorem reachesOutside_cons {entered : List Symbol} {s : Symbol} {id : Identifier}
    {generics : List String} {body : Ty} {x y : ModuleId × Ty}
    (declared : p.declaration? s = some (.typeAlias id generics body))
    (reaches : p.ReachesOutside entered x y) :
    p.ReachesOutside (s :: entered) x y ∨ p.ReachesOutside (s :: entered) (s.module, body) y := by
  -- From the end of the way, so that what is kept is the part behind the last time `s` is entered.
  induction reaches using Relation.ReflTransGen.head_induction_on with
  | refl => exact Or.inl .refl
  | head step _ ih =>
    rcases ih with rest | again
    · cases step with
      | part part => exact Or.inl (.head (.part part) rest)
      | @«alias» m loc name arguments t id' generics' body' declared' fresh =>
        by_cases same : t = s
        · -- The step enters `s`, and the rest of the way begins at what `s` stands for.
          subst same
          have body_eq := (declaration?_of_typeDeclared? declared').2.symm.trans declared
          obtain ⟨-, -, rfl⟩ := Declaration.typeAlias.inj (Option.some.inj body_eq)
          exact Or.inr rest
        · have fresh' : t ∉ s :: entered := fun mem =>
            (List.mem_cons.mp mem).elim same fresh
          exact Or.inl (.head (.alias declared' fresh') rest)
    · exact Or.inr again

/-! ### The tags on such a way -/

/-- A type has the tags of its parts. -/
theorem mem_tagsOf_of_part {entered : List Symbol} {place : Place} {inner type : Ty} {t : Tag}
    (part : Part inner type) (mem : t ∈ (p.tagsOf origin entered place inner).value) :
    t ∈ (p.tagsOf origin entered place type).value := by
  rw [tagsOf.eq_def]
  cases part with
  | paren => exact mem
  | optional => exact mem
  | readonly => exact mem
  | union inside | intersection inside => exact mem_merge_allTags.2 ⟨inner, inside, mem⟩

/-- A type has the tags that it gives by itself. -/
theorem mem_tagsOf_of_gives {entered : List Symbol} {place : Place} {type : Ty} {t : Tag}
    (gives : p.Gives origin (place.scope, type) t) :
    t ∈ (p.tagsOf origin entered place type).value := by
  generalize same : (place.scope, type) = x at gives
  -- What a reference gives is read off the tags of its declaration.
  have of_reference (loc : Excerpt) {name : EntityName} {arguments : List Ty} {u : Tag}
      (referred : p.referredTags origin entered place name arguments = [u]) :
      (if (p.referent place.scope name).2 then u.erased else u)
        ∈ (p.tagsOf origin entered place (.reference loc name arguments)).value := by
    rw [value_tagsOf_reference, referred]
    split <;> exact List.mem_singleton_self _
  cases gives with
  | keyword tag =>
    obtain ⟨-, rfl⟩ := Prod.mk.inj same
    rw [tagsOf.eq_def]
    simp [tag]
  | literal known =>
    obtain ⟨-, rfl⟩ := Prod.mk.inj same
    rw [tagsOf.eq_def]
    simp [known]
  | function =>
    obtain ⟨-, rfl⟩ := Prod.mk.inj same
    rw [tagsOf.eq_def]
    exact List.mem_singleton_self _
  | object =>
    obtain ⟨-, rfl⟩ := Prod.mk.inj same
    rw [tagsOf.eq_def]
    exact List.mem_singleton_self _
  | mapped =>
    obtain ⟨-, rfl⟩ := Prod.mk.inj same
    rw [tagsOf.eq_def]
    exact List.mem_singleton_self _
  | @interfaceDecl m loc name arguments s id generics bases members declared =>
    obtain ⟨rfl, rfl⟩ := Prod.mk.inj same
    have referred : p.referredTags origin entered place name arguments = [.object] := by
      unfold referredTags
      rw [declared]
    simpa [Tag.erased] using of_reference loc referred
  | @classDecl m loc name arguments s id declared =>
    obtain ⟨rfl, rfl⟩ := Prod.mk.inj same
    have referred : p.referredTags origin entered place name arguments
        = [.named name.text (place.scope == origin)] := by
      unfold referredTags
      rw [declared]
    have mem := of_reference loc referred
    cases typeOnly : (p.referent place.scope name).2 <;> simpa [typeOnly, Tag.erased] using mem
  | @enumDecl m loc name arguments s id members declared =>
    obtain ⟨rfl, rfl⟩ := Prod.mk.inj same
    have referred : p.referredTags origin entered place name arguments = [enumTag members] := by
      unfold referredTags
      rw [declared]
    have mem := of_reference loc referred
    rwa [erased_enumTag, ite_self] at mem
  | @global m loc name arguments undeclared notArray =>
    obtain ⟨rfl, rfl⟩ := Prod.mk.inj same
    have referred : p.referredTags origin entered place name arguments = [name.globalTag] := by
      unfold referredTags globalTags
      simp [undeclared, notArray]
    exact of_reference loc referred

/-- The tags of a resolved type are those of the type, each once. -/
theorem mem_resolveType_iff {place : Place} {type : Ty} {t : Tag} :
    (∃ resolved, (p.resolveType origin place type).value = some resolved ∧ t ∈ resolved.tags) ↔
      t ∈ (p.tagsOf origin [] place type).value := by
  constructor
  · rintro ⟨resolved, eq, mem⟩
    exact mem_tagsOf_of_mem_resolveType eq mem
  · intro mem
    have merged : t ∈ Tag.merge [] (p.tagsOf origin [] place type).value :=
      Tag.mem_merge.mpr (Or.inr mem)
    exact ⟨_, resolveType_eq_some_iff.2 ⟨rfl, List.ne_nil_of_mem merged, rfl⟩, merged⟩

/-- A declared property may be missing exactly if it says so, or if its type admits undefined
values. -/
theorem required_eq_false_iff {place : Place} {loc : Excerpt} {docs : List String}
    {key : Option String} {optional : Bool} {written : Option Ty} {q : Property}
    (declared :
      (p.propertyOf origin place (.property loc docs key optional written)).value = some q) :
    q.required = false ↔ optional = true ∨ ∃ type, written = some type ∧
      .undefined ∈ (p.tagsOf origin [] place type).value := by
  rw [value_propertyOf_property] at declared
  obtain ⟨name, -, rfl⟩ := Option.map_eq_some_iff.mp declared
  cases written with
  | none => simp
  | some type =>
    simp only [Option.bind_some, Option.some.injEq, exists_eq_left', ← mem_resolveType_iff]
    cases optional <;> cases (p.resolveType origin place type).value <;>
      simp [ResolvedType.contains]

/-- The body of an alias, if a declaration is one. -/
def aliasBody? : Option Declaration → Option Ty
  | some (.typeAlias _ _ body) => some body
  | _ => none

/-- A declaration with such a body is an alias. -/
theorem exists_of_aliasBody? {d : Option Declaration} {body : Ty} (h : aliasBody? d = some body) :
    ∃ id generics, d = some (.typeAlias id generics body) := by
  unfold aliasBody? at h
  split at h
  · rename_i id generics body'
    obtain rfl := Option.some.inj h
    exact ⟨id, generics, rfl⟩
  · cases h

/-- Whether a type is a reference by a single identifier. -/
def isReferenceTo (name : String) : Ty → Bool
  | .reference _ written [] => written == .plain name
  | _ => false

/-- Such a type is written so. -/
theorem exists_of_isReferenceTo {name : String} {type : Ty} (h : isReferenceTo name type = true) :
    ∃ spot, type = .reference spot (.plain name) [] := by
  unfold isReferenceTo at h
  split at h
  · rename_i spot written
    obtain rfl := eq_of_beq h
    exact ⟨spot, rfl⟩
  · cases h

/-- Whether `T` comes to the first module of a program by 33 imports, each from the next one, and is
an alias in the last for a type that passes a test. -/
def endsChain (test : Ty → Bool) (p : Program) : Bool :=
  (aliasBody? (p.declaration? ⟨33, "T"⟩)).any test &&
    decide (p.importOf? ⟨33, "T"⟩ = none ∧ p.lookup 0 "T" = some ⟨0, "T"⟩) &&
    (List.range 33).all fun n => decide
      (p.importOf? ⟨n, "T"⟩ = some ([⟨importHop n false, n + 1⟩], "T") ∧
        p.finding (n + 1) "T" = .declared (some ⟨n + 1, "T"⟩) (ownHop (n + 1) false))

/-- The path of a module in a chain. -/
def chainPath (n : Nat) : String := s!"/m{n}.ts"

/-- The specifiers of a module in a chain. -/
def chainSpecifiers (n : Nat) : List String := if n < 33 then [s!"./m{n + 1}"] else []

/-- The module of a chain under a number, linked to the next one. -/
def linked (n : Nat) (text : String) (items : List Item) : LoadedModule :=
  ⟨chainPath n, text, items, (chainSpecifiers n).map fun specifier => (specifier, some (n + 1))⟩

/-- Whether a module imports `T` from the next one. -/
def importsNext (n : Nat) (m : LoadedModule) : Bool :=
  match m.declaration? "T" with
  | some (.imported _ source (.named name) typeOnly) =>
    source == some (n + 1) && name == "T" && !typeOnly
  | _ => false

/-- Whether a module declares `T` to be an alias for a type that passes a test. -/
def declaresAlias (test : Ty → Bool) (m : LoadedModule) : Bool :=
  (aliasBody? (m.declaration? "T")).any test

/-- Whether a module exports its `T`. -/
def exportsOwn (m : LoadedModule) : Bool := decide (m.written? "T" = some (.own "T", false))

/-- Whether a module does what it has to do in a chain. -/
def linksOn (test : Ty → Bool) (n : Nat) (m : LoadedModule) : Bool :=
  (if n < 33 then importsNext n m else declaresAlias test m) && (n == 0 || exportsOwn m)

/-- Whether a text is that of a module which has the specifiers of one in a chain and, linked to the
next one, passes a test. -/
def parsesWith (n : Nat) (text : String) (test : LoadedModule → Bool) : Bool :=
  match Grammar.parseModule false (scriptOf text) with
  | .ok items =>
    ReadModule.specifiers ⟨chainPath n, text, items⟩ == chainSpecifiers n &&
      test (linked n text items)
  | .error _ => false

/-- Text that passes a test is that of such a module. -/
theorem exists_of_parsesWith {n : Nat} {text : String} {test : LoadedModule → Bool}
    (h : parsesWith n text test = true) :
    ∃ items, Grammar.parseModule false (scriptOf text) = .ok items ∧
      ReadModule.specifiers ⟨chainPath n, text, items⟩ = chainSpecifiers n ∧
      test (linked n text items) = true := by
  unfold parsesWith at h
  split at h
  · rename_i items parsed
    obtain ⟨same, passes⟩ := Bool.and_eq_true_iff.mp h
    exact ⟨items, parsed, eq_of_beq same, passes⟩
  · cases h

/-- From each module of a chain the specifier leads to the path of the next one first. -/
theorem head?_candidates_chain (n : Nat) (before : n < 33) :
    Specifier.isLocal s!"./m{n + 1}" = true ∧
      (Specifier.candidates (Specifier.base (chainPath n) s!"./m{n + 1}")).head?
        = some (chainPath (n + 1)) := by
  revert n
  decide +kernel

/-- No module of a chain has markup. -/
theorem extension?_chainPath (n : Nat) (inside : n < 34) :
    (Path.extension? (chainPath n) == some "tsx") = false := by
  revert n
  decide +kernel

/-- What the files of a chain hold. -/
structure Chain (s : Sources) (texts : Nat → String) (test : Ty → Bool) : Prop where
  paths : s.paths = (List.range 34).map chainPath
  nodup : s.paths.Nodup
  reads : ∀ n < 34, s.read? (chainPath n) = some (texts n)
  parses : ∀ n < 34, parsesWith n (texts n) (linksOn test n) = true

namespace Chain

variable {s : Sources} {texts : Nat → String} {test : Ty → Bool}

/-- Each file of a chain is read as a module that does what it has to do. -/
theorem exists_items (chain : Chain s texts test) : ∃ items : Nat → List Item, ∀ n < 34,
    ReadModule.read s (chainPath n) = .ok ⟨chainPath n, texts n, items n⟩ ∧
      ReadModule.specifiers ⟨chainPath n, texts n, items n⟩ = chainSpecifiers n ∧
      linksOn test n (linked n (texts n) (items n)) = true := by
  have each (n : Nat) : ∃ items, n < 34 →
      Grammar.parseModule false (scriptOf (texts n)) = .ok items ∧
        ReadModule.specifiers ⟨chainPath n, texts n, items⟩ = chainSpecifiers n ∧
        linksOn test n (linked n (texts n) items) = true := by
    by_cases inside : n < 34
    · obtain ⟨items, facts⟩ := exists_of_parsesWith (chain.parses n inside)
      exact ⟨items, fun _ => facts⟩
    · exact ⟨[], fun h => absurd h inside⟩
  -- The items of each module, as one family.
  obtain ⟨items, facts⟩ := Classical.skolem.mp each
  refine ⟨items, fun n inside => ?_⟩
  obtain ⟨parsed, others⟩ := facts n inside
  refine ⟨?_, others⟩
  exact read_eq_ok_iff.2
    ⟨_, _, chain.reads n inside, by rw [extension?_chainPath n inside, parsed], rfl⟩

/-- From each module of a chain the specifier leads to the next one. -/
theorem resolve?_eq (chain : Chain s texts test) {n : Nat} (before : n < 33) :
    Specifier.resolve? s (chainPath n) s!"./m{n + 1}" = some (chainPath (n + 1)) := by
  obtain ⟨isLocal, first⟩ := head?_candidates_chain n before
  obtain ⟨others, candidates⟩ := List.head?_eq_some_iff.mp first
  have there : s.contains (chainPath (n + 1)) = true := by
    have read := chain.reads (n + 1) (by omega)
    unfold Sources.read? at read
    unfold Sources.contains
    cases found : s.file? (chainPath (n + 1)) with
    | none => rw [found] at read; cases read
    | some content => rfl
  rw [Specifier.resolve?, if_pos isLocal, candidates, List.find?_cons_of_pos there]

/-- Modules that are read from the files of a chain stand in a row. -/
theorem row (chain : Chain s texts test) {items : Nat → List Item} (each : ∀ n < 34,
      ReadModule.read s (chainPath n) = .ok ⟨chainPath n, texts n, items n⟩ ∧
        ReadModule.specifiers ⟨chainPath n, texts n, items n⟩ = chainSpecifiers n)
    (k n : Nat) (total : n + k = 33) :
    Row s ((List.range' (n + 1) k).map chainPath) ⟨chainPath n, texts n, items n⟩
      ((List.range' (n + 1) k).map fun i => ⟨chainPath i, texts i, items i⟩) := by
  induction k generalizing n with
  | zero =>
    refine .last ?_
    rw [ReadModule.dependencies, (each n (by omega)).2, chainSpecifiers, if_neg (by omega)]
    rfl
  | succ k ih =>
    have resolved := chain.resolve?_eq (n := n) (by omega)
    have leads : ReadModule.dependencies s ⟨chainPath n, texts n, items n⟩
        = [chainPath (n + 1)] := by
      rw [ReadModule.dependencies, (each n (by omega)).2, chainSpecifiers, if_pos (by omega)]
      simp only [List.filterMap_cons, List.filterMap_nil, resolved]
    rw [List.range'_succ, List.map_cons, List.map_cons]
    refine .next ?_ (each (n + 1) (by omega)).1 (ih (n + 1) (by omega))
    rw [leads]
    simp [take]

/-- The files of a chain are loaded as a program with each module linked to the next one. -/
theorem exists_program (chain : Chain s texts test) :
    ∃ p, load s "/m0.ts" = .ok p ∧
      ∀ n : Nat, n < 34 → ∃ m, p.module? n = some m ∧ linksOn test n m = true := by
  obtain ⟨items, each⟩ := chain.exists_items
  let m (n : Nat) : ReadModule := ⟨chainPath n, texts n, items n⟩
  have whole : List.range 34 = 0 :: List.range' 1 33 := by decide
  have modules : m 0 :: (List.range' 1 33).map m = (List.range 34).map m := by
    rw [whole, List.map_cons]
  have normal : Path.normalize "/m0.ts" = chainPath 0 := rfl
  have loaded : load s "/m0.ts" = .ok (connect s ⟨(List.range 34).map m, []⟩) := by
    rw [← modules]
    refine load_of_row (by rw [normal]; exact (each 0 (by omega)).1) ?_
    rw [normal, chain.paths, whole, List.map_cons, List.erase_cons_head]
    exact chain.row (fun n inside => ⟨(each n inside).1, (each n inside).2.1⟩) 33 0 rfl
  -- No two modules have the same path, so each one is found by its path.
  have found (n : Nat) (inside : n < 34) :
      ((List.range 34).map m).findIdx? (·.path == chainPath n) = some n := by
    have once := chain.nodup
    rw [chain.paths] at once
    refine List.findIdx?_eq_some_iff_getElem.mpr
      ⟨by simpa using inside, by simp [m], fun j before same => ?_⟩
    have equal : chainPath j = chainPath n := by simpa [m] using same
    have := List.inj_on_of_nodup_map once (List.mem_range.mpr (by omega))
      (List.mem_range.mpr inside) equal
    omega
  refine ⟨_, loaded, fun n inside => ⟨linked n (texts n) (items n), ?_, (each n inside).2.2⟩⟩
  -- The one specifier of a module leads to the next module.
  have targets : ((m n).specifiers.map fun specifier =>
      (specifier, (Specifier.resolve? s (m n).path specifier).bind fun path =>
        ((List.range 34).map m).findIdx? (·.path == path)))
      = (chainSpecifiers n).map fun specifier => (specifier, some (n + 1)) := by
    have written : (m n).specifiers = chainSpecifiers n := (each n inside).2.1
    rw [written]
    refine List.map_congr_left fun specifier mem => ?_
    unfold chainSpecifiers at mem
    split at mem
    · rename_i before
      obtain rfl := List.mem_singleton.mp mem
      have resolved : Specifier.resolve? s (m n).path s!"./m{n + 1}" = some (chainPath (n + 1)) :=
        chain.resolve?_eq before
      rw [resolved, Option.bind_some, found (n + 1) (by omega)]
    · cases mem
  simp only [module?, connect, List.getElem?_map, List.getElem?_range inside, Option.map_some]
  rw [linked, ← targets]

/-- In the program of a chain, `T` comes to the first module by as many imports as there are. -/
theorem loads (chain : Chain s texts test) : loadsWith s "/m0.ts" (endsChain test) = true := by
  obtain ⟨p, loaded, each⟩ := chain.exists_program
  -- Each module before the last one imports `T` from the next one, and the last one declares it.
  have imports (n : Nat) (before : n < 33) : ∃ id, p.declaration? ⟨n, "T"⟩
      = some (.imported id (some (n + 1)) (.named "T") false) := by
    obtain ⟨m, isModule, does⟩ := each n (by omega)
    rw [linksOn, if_pos before, Bool.and_eq_true_iff] at does
    have passes := does.1
    unfold importsNext at passes
    split at passes
    · rename_i id source name typeOnly declared
      simp only [Bool.and_eq_true, beq_iff_eq, Bool.not_eq_true'] at passes
      obtain ⟨⟨rfl, rfl⟩, rfl⟩ := passes
      exact ⟨id, by rw [declaration?, isModule, Option.bind_some, declared]⟩
    · cases passes
  have isAlias : (aliasBody? (p.declaration? ⟨33, "T"⟩)).any test = true := by
    obtain ⟨m, isModule, does⟩ := each 33 (by omega)
    rw [linksOn, if_neg (by omega), Bool.and_eq_true_iff] at does
    rw [declaration?, isModule, Option.bind_some]
    exact does.1
  obtain ⟨body, isBody, -⟩ := (Option.any_eq_true _ _).mp isAlias
  obtain ⟨id, generics, last⟩ := exists_of_aliasBody? isBody
  have bound (n : Nat) (inside : n < 34) : p.lookup n "T" = some ⟨n, "T"⟩ := by
    obtain before | rfl : n < 33 ∨ n = 33 := by omega
    · obtain ⟨id, isImport⟩ := imports n before
      rw [lookup, isImport, Option.map_some]
    · rw [lookup, last, Option.map_some]
  have stops : p.importOf? ⟨33, "T"⟩ = none := by rw [importOf?, last]
  -- What a module imports is what the next one exports, and binds itself.
  have link (n : Nat) (before : n < 33) :
      p.importOf? ⟨n, "T"⟩ = some ([⟨importHop n false, n + 1⟩], "T") ∧
        p.finding (n + 1) "T" = .declared (some ⟨n + 1, "T"⟩) (ownHop (n + 1) false) := by
    obtain ⟨id, isImport⟩ := imports n before
    obtain ⟨m, isModule, does⟩ := each (n + 1) (by omega)
    have exports : m.written? "T" = some (.own "T", false) := by
      simpa [exportsOwn] using (Bool.and_eq_true_iff.mp does).2
    refine ⟨importOf?_eq_some_iff.2 ⟨id, some (n + 1), false, isImport, rfl⟩, ?_⟩
    rw [finding, isModule]
    simp only [exports, bound (n + 1) (by omega)]
    rfl
  unfold loadsWith
  rw [loaded]
  simp only [endsChain, Bool.and_eq_true, decide_eq_true_eq, List.all_eq_true, List.mem_range]
  exact ⟨⟨isAlias, stops, bound 0 (by omega)⟩, link⟩

end Chain

end Program

end TypedProps
