import TypedProps.Proofs.Exports.Imports
import TypedProps.Proofs.Pass.Steps
import TypedProps.Proofs.Property.References
import TypedProps.Proofs.Steps

/-!
# `TypedProps.Proofs.Pass.Guards`: the steps of a pass end and leave the guards as they were

`Computes` compares a step of a pass with a value that carries its diagnostics: run under some
guards, the step ends with this value, appends what is shown of the diagnostics, and has the same
guards in the end as in the beginning. `Collects` says the same of steps that add to a list.
`computes_typeTags` and `collects_collectType` compare the two recursions of a pass with those of
the resolution, whatever is under guard when they begin.

The induction is that of the resolution: a step into an alias or an interface puts a symbol under
guard that was not, and otherwise types become smaller. An import is followed once, because what it
stands for is no import of one name. The guards decide who is followed, so a symbol that stayed
under guard would be lost for all that comes later; `Computes.guarded` and `Collects.guarded` are
the places where it is released.
-/

set_option autoImplicit false

namespace TypedProps

/-- What is shown of several diagnostics is what is shown of each of them. -/
theorem Options.shown_append (options : Options) (first rest : List Diagnostic) :
    options.shown (first ++ rest) = options.shown first ++ options.shown rest := by
  unfold Options.shown
  split
  · exact List.filter_append ..
  · rfl

/-- Tags of two lists are merged one list after the other. -/
theorem Tag.merge_append (tags first rest : List Tag) :
    Tag.merge tags (first ++ rest) = Tag.merge (Tag.merge tags first) rest :=
  List.foldl_append

namespace Pass

variable {options : Options} {r e : List Symbol} {α β : Type}

/-- `Computes options r e step noted`: under the guards `r` and `e`, the step ends with a value,
reports the diagnostics that are noted with it, as far as they are shown, and leaves the guards as
they were. -/
def Computes (options : Options) (r e : List Symbol) (step : Step α) (noted : Noted α) : Prop :=
  ∀ reported, step ⟨reported, r, e⟩
    = some (noted.value, ⟨reported ++ options.shown noted.notes, r, e⟩)

namespace Computes

/-- A value is computed at once. -/
protected theorem pure (a : α) : Computes options r e (pure a) (pure a) := by
  intro reported
  have nothing : options.shown [] = [] := by unfold Options.shown; split <;> rfl
  rw [Noted.pure_notes, nothing, List.append_nil]
  rfl

/-- Steps compute one after the other. -/
protected theorem bind {step : Step α} {noted : Noted α} {next : α → Step β}
    {following : α → Noted β} (first : Computes options r e step noted)
    (rest : Computes options r e (next noted.value) (following noted.value)) :
    Computes options r e (step >>= next) (noted >>= following) := by
  intro reported
  rw [Noted.bind_value, Noted.bind_notes, Options.shown_append, ← List.append_assoc, ← rest]
  exact bind_of_eq (first reported)

/-- A step may go on to transform its value. -/
protected theorem map {step : Step α} {noted : Noted α} (f : α → β)
    (first : Computes options r e step noted) :
    Computes options r e (do let a ← step; pure (f a)) (f <$> noted) :=
  first.bind (.pure _)

/-- A problem is reported if it is shown. -/
protected theorem warn (problem : Problem) (m : ModuleId) (span : Span) :
    Computes options r e (warn options problem m span) (Noted.note problem m span) := by
  intro reported
  let d : Diagnostic := ⟨problem, m, span⟩
  show (if options.hideWarnings && d.severity == .warning then _ else _ : Step Unit) _
    = some ((), ⟨reported ++ options.shown [d], r, e⟩)
  unfold Options.shown
  cases options.hideWarnings with
  | false => rfl
  | true =>
    cases grave : d.severity <;> simp [grave] <;> rfl

/-- An alias that is not under guard is put there while a step computes, and released. -/
theorem guarded {step : Step α} {noted : Noted α} {s : Symbol} (other : Step α) (fresh : s ∉ r)
    (inner : Computes options (s :: r) e step noted) :
    Computes options r e (do
      if ← beginResolving s then
        let a ← step
        endResolving s
        pure a
      else other) noted := by
  intro reported
  have begun : beginResolving s ⟨reported, r, e⟩ = some (true, ⟨reported, s :: r, e⟩) := by
    simp [beginResolving, fresh]
  have ended (after : List Diagnostic) :
      endResolving s ⟨after, s :: r, e⟩ = some ((), ⟨after, r, e⟩) := by
    show some ((), Pass.mk after ((s :: r).erase s) e) = _
    rw [List.erase_cons_head]
  rw [bind_of_eq begun, if_pos rfl, bind_of_eq (inner reported), bind_of_eq (ended _)]
  rfl

/-- An alias that is under guard is not followed. -/
theorem refused {other : Step α} {noted : Noted α} {s : Symbol} (step : Step α) (again : s ∈ r)
    (instead : Computes options r e other noted) :
    Computes options r e (do
      if ← beginResolving s then
        let a ← step
        endResolving s
        pure a
      else other) noted := by
  intro reported
  have begun : beginResolving s ⟨reported, r, e⟩ = some (false, ⟨reported, r, e⟩) := by
    simp [beginResolving, again]
  rw [bind_of_eq begun]
  exact instead reported

end Computes

/-! ### Tags -/

variable {p : Program} {origin : ModuleId}

/-- What is an alias is an import. -/
theorem declaration?_of_aliased? {s t : Symbol} (aliased : p.aliased? s = some t) :
    ∃ id source what typeOnly, p.declaration? s = some (.imported id source what typeOnly) := by
  obtain ⟨isImport, -⟩ := Program.aliased?_eq_some_iff.mp aliased
  obtain ⟨⟨ways, name⟩, imported⟩ := Option.isSome_iff_exists.mp isImport
  obtain ⟨id, source, typeOnly, declared, -⟩ := Program.importOf?_eq_some_iff.mp imported
  exact ⟨_, _, _, _, declared⟩

/-- What an alias stands for is none. -/
theorem aliased?_eq_none_of_aliased? {s t : Symbol} (aliased : p.aliased? s = some t) :
    p.aliased? t = none := by
  obtain ⟨-, trail, n, walk, rfl, -⟩ := Program.aliased?_eq_some_iff.mp aliased
  by_contra further
  obtain ⟨u, further⟩ := Option.ne_none_iff_exists'.mp further
  have isImport := (Program.aliased?_eq_some_iff.mp further).1
  rw [walk.leads.importOf?_symbol] at isImport
  cases isImport

section
variable {entered : List Symbol} {place : Place} {loc : Excerpt} {name : EntityName}
  {arguments : List Ty}

/-- A reference has the tags of its symbol or, if that is an alias, of what the alias stands for. -/
theorem tagsOf_reference_eq :
    p.tagsOf origin entered place (.reference loc name arguments)
      = match p.symbolAt place.scope name with
        | none => p.tagsOfGlobal origin entered place name arguments
        | some s =>
          match p.aliased? s with
          | none => p.tagsOfReferent origin entered place loc name arguments (some s)
          | some t =>
            (fun tags => if p.isTypeOnly s then tags.map Tag.erased else tags)
              <$> p.tagsOfReferent origin entered place loc name arguments (some t) := by
  rw [Program.tagsOf_reference]
  cases bound : p.symbolAt place.scope name with
  | none =>
    have referent : p.referent place.scope name = (none, false) := by
      rw [Program.referent, bound]
    rw [referent]
    exact bind_pure _
  | some s =>
    dsimp only
    cases aliased : p.aliased? s with
    | some t =>
      obtain ⟨_, _, _, _, declared⟩ := declaration?_of_aliased? aliased
      have referent : p.referent place.scope name = (some t, p.isTypeOnly s) := by
        simp only [Program.referent, bound, declared, aliased]
      rw [referent]
      rfl
    | none =>
      by_cases isImport : ∃ id source what typeOnly,
          p.declaration? s = some (.imported id source what typeOnly)
      · obtain ⟨_, _, _, _, declared⟩ := isImport
        have referent : p.referent place.scope name = (none, false) := by
          simp only [Program.referent, bound, declared, aliased]
        -- Both are the tags of a name under which nothing is declared.
        rw [referent, Program.tagsOfReferent.eq_def _ _ _ _ _ _ _ (some s)]
        dsimp only
        rw [declared]
        exact bind_pure _
      · have referent : p.referent place.scope name = (some s, false) := by
          simp only [Program.referent, bound]
          split
          · rename_i declared
            exact absurd ⟨_, _, _, _, declared⟩ isImport
          · rfl
        rw [referent]
        exact bind_pure _

/-- A name under which nothing is declared has its tags if its arguments have theirs. -/
theorem computes_builtinTags
    (inside : ∀ argument ∈ arguments, Computes options entered e
      (p.typeTags options origin place argument) (p.tagsOf origin entered place argument)) :
    Computes options entered e (p.builtinTags options origin place name arguments)
      (p.tagsOfGlobal origin entered place name arguments) := by
  rw [Program.builtinTags.eq_def, Program.tagsOfGlobal.eq_def]
  split
  · cases arguments with
    | nil => exact .pure _
    | cons argument rest => exact (inside argument List.mem_cons_self).map _
  · exact .pure _

/-- A reference to what is no alias has its tags if its arguments and the body have theirs. -/
theorem computes_symbolTags {s : Symbol} (stops : p.aliased? s = none)
    (inside : ∀ argument ∈ arguments, Computes options entered e
      (p.typeTags options origin place argument) (p.tagsOf origin entered place argument))
    (behind : ∀ id generics body, s ∉ entered →
      p.declaration? s = some (.typeAlias id generics body) →
      Computes options (s :: entered) e (p.typeTags options origin (.inside s.module) body)
        (p.tagsOf origin (s :: entered) (.inside s.module) body)) :
    Computes options entered e (p.symbolTags options origin place loc name arguments s)
      (p.tagsOfReferent origin entered place loc name arguments (some s)) := by
  rw [Program.symbolTags.eq_def, Program.tagsOfReferent, stops]
  cases declared : p.declaration? s with
  | none => exact computes_builtinTags inside
  | some d =>
    cases d with
    | imported => exact computes_builtinTags inside
    | interfaceDecl | classDecl | enumDecl => exact .pure _
    | typeAlias id generics body =>
      dsimp only
      split
      · rename_i again
        exact .refused _ again (.bind (.warn _ _ _) (.pure _))
      · rename_i fresh
        exact .guarded _ fresh (behind _ _ _ fresh declared)

end

mutual

/-- Collecting the tags of a type gives them all, and ends, whatever is under guard. -/
theorem computes_typeTags (entered : List Symbol) (place : Place) (type : Ty) :
    Computes options entered e (p.typeTags options origin place type)
      (p.tagsOf origin entered place type) := by
  cases type with
  | keyword | literal | function | object | mapped | other =>
    rw [Program.typeTags.eq_def, Program.tagsOf]
    exact .pure _
  | array loc element =>
    rw [Program.typeTags.eq_def, Program.tagsOf]
    exact (computes_typeTags entered place element).map _
  | paren loc inner | optional loc inner | readonly loc inner =>
    rw [Program.typeTags.eq_def, Program.tagsOf]
    exact computes_typeTags entered place inner
  | tuple loc parts =>
    rw [Program.typeTags.eq_def, Program.tagsOf]
    have merged := (computes_mergedTags entered place [] parts).map fun tags => [Tag.array tags]
    rw [Functor.map_map] at merged
    exact merged
  | union loc parts | intersection loc parts =>
    rw [Program.typeTags.eq_def, Program.tagsOf]
    exact computes_mergedTags entered place [] parts
  | reference loc name arguments =>
    have inside (argument : Ty) (mem : argument ∈ arguments) :
        Computes options entered e (p.typeTags options origin place argument)
          (p.tagsOf origin entered place argument) :=
      have := List.sizeOf_lt_of_mem mem
      computes_typeTags entered place argument
    -- A symbol that is no import has the tags of its declaration. An alias is entered there, which
    -- leaves fewer symbols to enter.
    have behind (s : Symbol) (stops : p.aliased? s = none) :
        Computes options entered e (p.symbolTags options origin place loc name arguments s)
          (p.tagsOfReferent origin entered place loc name arguments (some s)) := by
      refine computes_symbolTags stops inside ?_
      intro id generics body fresh declared
      have := Program.unentered_cons_lt (Program.mem_symbols_of_declaration? declared) fresh
      exact computes_typeTags (s :: entered) (.inside s.module) body
    rw [Program.typeTags.eq_def, tagsOf_reference_eq]
    dsimp only
    cases p.symbolAt place.scope name with
    | none => exact computes_builtinTags inside
    | some s =>
      dsimp only
      cases aliased : p.aliased? s with
      | none => exact behind s aliased
      | some t =>
        obtain ⟨_, _, _, _, declared⟩ := declaration?_of_aliased? aliased
        rw [Program.symbolTags.eq_def, declared, aliased]
        exact (behind t (aliased?_eq_none_of_aliased? aliased)).map _
termination_by (p.unentered entered, sizeOf type)

/-- Merging the tags of some types, one after the other, merges all their tags. -/
theorem computes_mergedTags (entered : List Symbol) (place : Place) (tags : List Tag)
    (types : List Ty) :
    Computes options entered e (p.mergedTags options origin place tags types)
      (Tag.merge tags <$> p.allTags origin entered place types) := by
  cases types with
  | nil =>
    rw [Program.mergedTags.eq_def, Program.allTags]
    exact .pure _
  | cons type rest =>
    rw [Program.mergedTags.eq_def, Program.allTags]
    have others (first : List Tag) := computes_mergedTags entered place (Tag.merge tags first) rest
    simp only [map_bind, map_pure, Tag.merge_append]
    exact (computes_typeTags entered place type).bind (others _)
termination_by (p.unentered entered, sizeOf types)

end

/-- Resolving a type gives what it is resolved to. -/
theorem computes_resolveType (place : Place) (type : Ty) :
    Computes options [] e (resolveType p options origin place type)
      (p.resolveType origin place type) := by
  refine .bind (computes_typeTags [] place type) ?_
  dsimp only
  split
  · exact .pure _
  · split <;> exact .pure _

/-! ### Lists -/

/-- `Collects options r e step noted`: the step computes with the list that it is given, and puts
behind it what is noted. -/
def Collects (options : Options) (r e : List Symbol) (step : List α → Step (List α))
    (noted : Noted (List α)) : Prop :=
  ∀ out, Computes options r e (step out) ((out ++ ·) <$> noted)

namespace Collects

/-- A step that adds nothing. -/
theorem nothing : Collects options r e (fun out : List α => pure out) (pure []) := by
  intro out
  rw [map_pure, List.append_nil]
  exact .pure out

/-- A step that adds one value. -/
theorem single (a : α) : Collects options r e (fun out => pure (out ++ [a])) (pure [a]) := by
  intro out
  rw [map_pure]
  exact .pure _

/-- A step that adds to a list may go on to transform it. -/
protected theorem map {step : List α → Step (List α)} {noted : Noted (List α)} (f : List α → β)
    (collects : Collects options r e step noted) (out : List α) :
    Computes options r e (do let list ← step out; pure (f list))
      ((fun list => f (out ++ list)) <$> noted) := by
  have transformed := (collects out).map f
  rw [Functor.map_map] at transformed
  exact transformed

/-- Two steps, one after the other. -/
theorem append {first rest : List α → Step (List α)} {noted others : Noted (List α)}
    (left : Collects options r e first noted) (right : Collects options r e rest others) :
    Collects options r e (fun out => first out >>= rest)
      (do let list ← noted; pure (list ++ (← others))) := by
  intro out
  have step : Computes options r e (first out >>= rest)
      (((out ++ ·) <$> noted) >>= fun list => (list ++ ·) <$> others) := (left out).bind (right _)
  simpa only [← bind_pure_comp, bind_assoc, pure_bind, List.append_assoc] using step

/-- A step that reports a problem and adds nothing. -/
theorem warn (problem : Problem) (m : ModuleId) (span : Span) :
    Collects options r e (fun out : List α => do Pass.warn options problem m span; pure out)
      (do Noted.note problem m span; pure []) := by
  intro out
  rw [map_bind]
  exact (Computes.warn problem m span).bind (nothing out)

/-- A step that reports a problem before another one. -/
theorem warn_append {rest : List α → Step (List α)} {others : Noted (List α)} (problem : Problem)
    (m : ModuleId) (span : Span) (right : Collects options r e rest others) :
    Collects options r e (fun out => do Pass.warn options problem m span; rest out)
      (do
        let list ← do
          Noted.note problem m span
          pure []
        pure (list ++ (← others))) := by
  simpa using (warn problem m span).append right

/-- An alias or an interface that is not under guard is put there while a step adds to a list, and
released. -/
theorem guarded {step : List α → Step (List α)} {noted : Noted (List α)} {s : Symbol}
    (m : ModuleId) (span : Span) (fresh : s ∉ e) (inner : Collects options r (s :: e) step noted) :
    Collects options r e (fun out => do
      if ← enter options s m span then
        let out ← step out
        leave s
        pure out
      else pure out) noted := by
  intro out reported
  have entered : enter options s m span ⟨reported, r, e⟩ = some (true, ⟨reported, r, s :: e⟩) := by
    show (if s ∈ e then _ else _ : Step Bool) _ = _
    rw [if_neg fresh, ← List.insert_of_not_mem fresh]
    rfl
  have left (after : List Diagnostic) : leave s ⟨after, r, s :: e⟩ = some ((), ⟨after, r, e⟩) := by
    show some ((), Pass.mk after r ((s :: e).erase s)) = _
    rw [List.erase_cons_head]
  dsimp only
  rw [bind_of_eq entered, if_pos rfl, bind_of_eq (inner out reported), bind_of_eq (left _)]
  rfl

/-- An alias or an interface that is under guard is reported, and not expanded. -/
theorem refused {s : Symbol} (step : List α → Step (List α)) (m : ModuleId) (span : Span)
    (again : s ∈ e) :
    Collects options r e (fun out => do
      if ← enter options s m span then
        let out ← step out
        leave s
        pure out
      else pure out)
      (do Noted.note (.recursiveMembers s.name) m span; pure []) := by
  intro out
  have reports : Computes options r e (enter options s m span)
      (do Noted.note (.recursiveMembers s.name) m span; pure false) := by
    intro reported
    show (if s ∈ e then _ else _ : Step Bool) _ = _
    rw [if_pos again]
    exact (Computes.warn _ _ _).bind (.pure false) reported
  have step : Computes options r e
      (enter options s m span >>= fun entered =>
        if entered then step out >>= fun out => leave s >>= fun _ => pure out else pure out)
      ((do Noted.note (.recursiveMembers s.name) m span; pure false) >>= fun _ => pure out) :=
    reports.bind (.pure out)
  simpa only [map_bind, map_pure, bind_assoc, pure_bind, List.append_nil] using step

end Collects

/-! ### Members -/

/-- The property of a member is added. -/
theorem collects_collectMember (place : Place) (member : Member) :
    Collects options [] e (collectMember p options origin place member)
      (Option.toList <$> p.propertyOf origin place member) := by
  intro out
  rw [Program.propertyOf.eq_def, collectMember.eq_def]
  cases member with
  | other => exact Collects.nothing out
  | method loc docs name optional generics parameters result =>
    dsimp only
    cases usableName? name with
    | none => exact Collects.nothing out
    | some name => exact Collects.single _ out
  | property loc docs name optional type =>
    dsimp only
    cases usableName? name with
    | none => exact Collects.nothing out
    | some name =>
      -- Both sides run the type, if there is one, before the property is added.
      cases type with
      | none =>
        dsimp only
        rw [map_bind, map_bind]
        exact .bind (.pure none) (.pure _)
      | some type =>
        dsimp only
        rw [map_bind, map_bind]
        exact .bind (computes_resolveType place type) (.pure _)

/-- The properties of members are added. -/
theorem collects_collectMembers (place : Place) (members : List Member) :
    Collects options [] e (collectMembers p options origin place members)
      (p.propertiesOfMembers origin place members) := by
  induction members with
  | nil => exact .nothing
  | cons member rest ih =>
    rw [Program.propertiesOfMembers]
    rw [← bind_map_left]
    exact (collects_collectMember place member).append ih

mutual

/-- The members of a type are added, whatever is under guard. -/
theorem collects_collectType (entered : List Symbol) (place : Place) (type : Ty) :
    Collects options [] entered (p.collectType options origin place type)
      (p.expand origin entered place type) := by
  intro out
  rw [Program.collectType.eq_def]
  cases type with
  | object loc members =>
    rw [Program.expand]
    exact collects_collectMembers place members out
  | paren loc inner =>
    rw [Program.expand]
    exact collects_collectType entered place inner out
  | intersection loc parts =>
    rw [Program.expand]
    exact collects_collectParts entered place parts out
  | reference loc name arguments =>
    rw [Program.expand_reference]
    dsimp only
    cases p.symbolAt place.scope name with
    | none => exact Collects.warn _ _ _ out
    | some s => exact collects_collectSymbol entered s place.script loc.span out
  | _ =>
    rw [Program.expand.eq_def]
    exact Collects.warn _ _ _ out
termination_by (p.unentered entered, sizeOf type)

/-- The members of the parts of an intersection are added. -/
theorem collects_collectParts (entered : List Symbol) (place : Place) (parts : List Ty) :
    Collects options [] entered (p.collectParts options origin place parts)
      (p.expandParts origin entered place parts) := by
  intro out
  rw [Program.collectParts.eq_def]
  cases parts with
  | nil =>
    rw [Program.expandParts]
    exact Collects.nothing out
  | cons part rest =>
    have others := collects_collectParts entered place rest
    rw [Program.expandParts]
    dsimp only
    split
    · exact (collects_collectType entered place part).append others out
    · exact Collects.warn_append _ _ _ others out
termination_by (p.unentered entered, sizeOf parts)

/-- The members of what a symbol is declared as are added. -/
theorem collects_collectSymbol (entered : List Symbol) (s : Symbol) (script : ModuleId)
    (span : Span) :
    Collects options [] entered (p.collectSymbol options origin s script span)
      (p.expandSymbol origin entered s script span) := by
  have direct (t : Symbol) (stops : p.aliased? t = none) :
      Collects options [] entered (p.collectSymbol options origin t script span)
        (p.expandDeclared origin entered script span t) := by
    intro out
    rw [Program.collectSymbol.eq_def, Program.expandDeclared]
    cases declared : p.declaration? t with
    | none => exact Collects.warn _ _ _ out
    | some d =>
      cases d with
      | imported =>
        dsimp only
        rw [stops]
        exact Collects.warn _ _ _ out
      | classDecl | enumDecl => exact Collects.warn _ _ _ out
      | typeAlias id generics body =>
        dsimp only
        split
        · rename_i again
          exact Collects.refused _ _ _ again out
        · rename_i fresh
          have := Program.unentered_cons_lt (Program.mem_symbols_of_declaration? declared) fresh
          exact (collects_collectType (t :: entered) (.inside t.module) body).guarded _ _ fresh out
      | interfaceDecl id generics bases members =>
        dsimp only
        split
        · rename_i again
          exact Collects.refused _ _ _ again out
        · rename_i fresh
          have := Program.unentered_cons_lt (Program.mem_symbols_of_declaration? declared) fresh
          exact (collects_collectInterface (t :: entered) t.module members bases).guarded _ _ fresh
            out
  rw [Program.expandSymbol_eq, Program.behindImports?]
  cases aliased : p.aliased? s with
  | some t =>
    obtain ⟨_, _, _, _, declared⟩ := declaration?_of_aliased? aliased
    intro out
    rw [Program.collectSymbol.eq_def, declared, aliased]
    exact direct t (aliased?_eq_none_of_aliased? aliased) out
  | none =>
    -- An import that leads nowhere is reported in the same way when it is looked into.
    have here := direct s aliased
    cases declared : p.declaration? s with
    | none => exact here
    | some d =>
      cases d with
      | imported =>
        rw [Program.expandDeclared, declared] at here
        exact here
      | typeAlias | interfaceDecl | classDecl | enumDecl => exact here
termination_by (p.unentered entered, 0)

/-- The members of an interface are added, its own before those of its bases. -/
theorem collects_collectInterface (entered : List Symbol) (m : ModuleId) (members : List Member)
    (bases : List Base) :
    Collects options [] entered (p.collectInterface options origin m members bases)
      (do
        let own ← p.propertiesOfMembers origin (.inside m) members
        pure (own ++ (← p.expandBases origin entered m bases))) := by
  intro out
  rw [Program.collectInterface.eq_def]
  exact (collects_collectMembers (.inside m) members).append
    (collects_collectBases entered m bases) out
termination_by (p.unentered entered, bases.length + 2)

/-- The members of the bases of an interface are added. -/
theorem collects_collectBases (entered : List Symbol) (m : ModuleId) (bases : List Base) :
    Collects options [] entered (p.collectBases options origin m bases)
      (p.expandBases origin entered m bases) := by
  intro out
  rw [Program.collectBases.eq_def]
  cases bases with
  | nil =>
    rw [Program.expandBases]
    exact Collects.nothing out
  | cons base rest =>
    have others := collects_collectBases entered m rest
    rw [Program.expandBases]
    dsimp only
    cases base.name with
    | none => exact Collects.warn_append _ _ _ others out
    | some name =>
      dsimp only
      cases p.lookup m name with
      | none => exact Collects.warn_append _ _ _ others out
      | some s => exact (collects_collectSymbol entered s m base.loc).append others out
termination_by (p.unentered entered, bases.length + 1)

end

end Pass

end TypedProps
