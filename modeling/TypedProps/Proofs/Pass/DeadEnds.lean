import TypedProps.Proofs.Pass.Components
import TypedProps.Proofs.Property.PreOrder
import TypedProps.Proofs.Property.Traversal

/-!
# `TypedProps.Proofs.Pass.DeadEnds`: a pass reports each dead end once

While a pass collects the properties of a type, it reports what its traversal meets
(`reports_dead_ends`): one diagnostic for each dead end, in the order of the traversal and where the
waypoint is written, and besides these only what is reported about the types of members. So if
nothing else is reported, nothing that can be reached is missing from the properties.
-/

set_option autoImplicit false

namespace TypedProps.Pass

open Relation

variable {p : Program} {options : Options} {origin : ModuleId}

/-- If warnings are not hidden, everything is shown. -/
theorem shown_eq_self (shows : options.hideWarnings = false) (diagnostics : List Diagnostic) :
    options.shown diagnostics = diagnostics := by
  simp [Options.shown, shows]

/-- A dead end among the arrivals has its diagnostic. -/
theorem not_stopped_of_filterMap_eq_nil {arrivals : List Arrival}
    (nothing : arrivals.filterMap Arrival.diagnostic? = []) (point : Waypoint) (problem : Problem) :
    Arrival.stopped point problem ∉ arrivals := by
  intro mem
  have absent := List.filterMap_eq_nil_iff.mp nothing _ mem
  cases absent

/-- Unless warnings are hidden, a pass that collects the properties of a type reports what is met by
the traversal of the type, and there is one such traversal. The properties are those of the
waypoints that open, in this order, of one name the first.

What is reported about the own members of a waypoint is that an alias is recursive. What else is
reported is one diagnostic for each dead end. If there is no such diagnostic, then whatever the type
leads to, whichever declarations are being expanded, is opened, and its members that have a name are
among the properties. -/
theorem reports_dead_ends (origin : ModuleId) (shows : options.hideWarnings = false)
    (place : Place) (type : Ty) (before : List Diagnostic) :
    ∃ arrivals properties reported,
      p.Traverses [] [.type place type] arrivals ∧
      (∀ other, p.Traverses [] [.type place type] other → other = arrivals) ∧
      propertiesOf p options origin place type ⟨before, [], []⟩
        = some (properties, ⟨before ++ reported, [], []⟩) ∧
      properties = Property.firsts (arrivals.flatMap (Arrival.properties p origin)) ∧
      reported = arrivals.flatMap (Arrival.notes p origin) ∧
      (∀ point own, Arrival.opened point own ∈ arrivals →
        ∀ d ∈ (Arrival.opened point own).notes p origin, ∃ name, d.problem = .recursiveAlias name) ∧
      reported.filter (fun d => !d.problem.isRecursiveAlias)
        = arrivals.filterMap Arrival.diagnostic? ∧
      ((∀ d ∈ reported, d.problem.isRecursiveAlias = true) →
        ∀ point, ReflTransGen p.GoesOn (.type place type) point →
          ∃ own, Arrival.opened point own ∈ arrivals ∧ ∀ m ∈ own, ∀ q,
            (p.propertyOf origin m.1 m.2).value = some q → q.name ∈ properties.map (·.name)) := by
  obtain ⟨arrivals, traverses⟩ := p.exists_traverses [] [.type place type]
  have runs : propertiesOf p options origin place type ⟨before, [], []⟩ = _ :=
    computes_propertiesOf place type before
  rw [Program.propertiesOf, Noted.map_value, Noted.map_notes, traverses.expand_eq,
    shown_eq_self shows] at runs
  have apart := traverses.filter_notes origin
  refine ⟨arrivals, _, _, traverses, fun other again => again.unique traverses, runs, rfl, rfl,
    fun point own _ d mem => Program.problem_of_mem_notes_opened mem, apart, ?_⟩
  intro only point reaches
  -- Without a diagnostic that is left there is no dead end.
  have nothing : arrivals.filterMap Arrival.diagnostic? = [] := by
    rw [← apart, List.filter_eq_nil_iff]
    intro d mem
    simp [only d mem]
  obtain ⟨own, opened⟩ := traverses.opened_of_reaches (not_stopped_of_filterMap_eq_nil nothing)
    (List.mem_singleton_self _) reaches
  refine ⟨own, opened, ?_⟩
  intro m mem q declared
  rw [Property.mem_map_name_firsts_iff]
  refine List.mem_map_of_mem (List.mem_flatMap.mpr ⟨_, opened, ?_⟩)
  exact List.mem_filterMap.mpr ⟨m, mem, declared⟩

/-- An interface that extends itself and a type that is not there. -/
def deadEndFiles : Sources := .ofList
  [("/a.ts", .text "interface Props extends Props, Missing {}\n")]

/-- `Props & string`, as the code writes it. -/
def deadEndType : Ty :=
  .intersection ⟨⟨0, 14⟩, "Props & string"⟩
    [.reference ⟨⟨0, 5⟩, "Props"⟩ (.plain "Props") [], .keyword ⟨⟨8, 14⟩, "string"⟩ .string]

/-- In `deadEndFiles`, the type has three dead ends. The bases of the interface come before the part
of the intersection that stands behind it. -/
theorem reports_dead_ends_three :
    ∃ p arrivals properties reported, Program.load deadEndFiles "/a.ts" = .ok p ∧
      Options.standard.hideWarnings = false ∧
      p.Traverses [] [.type (.inside 0) deadEndType] arrivals ∧
      propertiesOf p .standard 0 (.inside 0) deadEndType ⟨[], [], []⟩
        = some (properties, ⟨[] ++ reported, [], []⟩) ∧
      reported.filter (fun d => !d.problem.isRecursiveAlias)
        = arrivals.filterMap Arrival.diagnostic? ∧
      reported.map (·.problem)
        = [.recursiveMembers "Props", .unknownType "Missing", .intersectionPart] := by
  have loads : Program.loadsWith deadEndFiles "/a.ts" (fun p => decide
      (Program.interfaceNames? (p.declaration? ⟨0, "Props"⟩)
          = some ([some "Props", some "Missing"], []) ∧
        p.lookup 0 "Props" = some ⟨0, "Props"⟩ ∧ p.lookup 0 "Missing" = none)) = true := by
    refine Program.loadsWith_of_written (by repeat constructor) ?_
    decide +kernel
  obtain ⟨p, loaded, facts⟩ := Program.exists_of_loadsWith loads
  obtain ⟨names, bound, unbound⟩ := of_decide_eq_true facts
  obtain ⟨id, generics, bases, members, declared, above, inside⟩ :=
    Program.exists_of_interfaceNames? names
  obtain ⟨first, rest, rfl, named, above⟩ := List.map_eq_cons_iff.mp above
  obtain ⟨second, last, rfl, named', above⟩ := List.map_eq_cons_iff.mp above
  obtain rfl := List.map_eq_nil_iff.mp above
  have behind : p.behindImports? ⟨0, "Props"⟩ = some ⟨0, "Props"⟩ := by
    rw [Program.behindImports?, declared]
  have reference : p.Refers (.type (.inside 0) (.reference ⟨⟨0, 5⟩, "Props"⟩ (.plain "Props") []))
      "Props" (some ⟨0, "Props"⟩) := by
    rw [← bound]
    exact .reference
  have itself : p.Refers (.base 0 first) "Props" (some ⟨0, "Props"⟩) := by
    rw [← bound]
    exact .base named
  have missing : p.Refers (.base 0 second) "Missing" none := by
    rw [← unbound]
    exact .base named'
  -- The two bases are met while `Props` is being expanded.
  have inBases : p.Traverses [⟨0, "Props"⟩] [.base 0 first, .base 0 second] _ :=
    .stopped (.again itself behind (Program.guard?_of_interface declared) List.mem_cons_self)
      (.stopped (.unknown missing) .nil)
  have inParts : p.Traverses []
      [.part (.inside 0) (.reference ⟨⟨0, 5⟩, "Props"⟩ (.plain "Props") []),
      .part (.inside 0) (.keyword ⟨⟨8, 14⟩, "string"⟩ .string)] _ :=
    .opened (.part rfl) (.opened (.interfaceDecl reference behind declared List.not_mem_nil) inBases
      .nil) (.stopped (.part rfl) .nil)
  have traverses : p.Traverses [] [.type (.inside 0) deadEndType] _ :=
    .opened .intersection inParts .nil
  obtain ⟨arrivals, properties, reported, -, unique, runs, -, rfl, -, apart, -⟩ :=
    reports_dead_ends (p := p) 0 (rfl : Options.standard.hideWarnings = false) (.inside 0)
      deadEndType []
  obtain rfl := unique _ traverses
  refine ⟨p, _, _, _, loaded, rfl, traverses, runs, apart, ?_⟩
  obtain rfl := List.map_eq_nil_iff.mp inside
  rfl

end TypedProps.Pass
