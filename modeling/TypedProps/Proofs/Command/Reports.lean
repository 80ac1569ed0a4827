import TypedProps.Proofs.Command.Delivery
import TypedProps.Proofs.Component.Named
import TypedProps.Proofs.Component.Places

/-!
# `TypedProps.Proofs.Command.Reports`: what a report refers to

A run prints a list of reports, each under the name of a file (`printed_eq_of_completes`). The name
is that of the file that has been processed, while line and column are those of the diagnostic in
the module in whose script it was met (`exists_origin_of_mem_reportsOf`). So the two belong together
exactly if the diagnostic was met in the processed file itself, and not in a module that it imports:
a base that an imported interface extends is reported under the name of the importing file
(`reports_base_of_import`).
-/

set_option autoImplicit false

namespace TypedProps.Command

variable {t : FileTree} {here : String} {a : Arguments} {wording : Wording} {plan : Plan}

/-- The reports of a run in order, each with the name of the file under which it is printed. -/
def reportsOf (wording : Wording) (t : FileTree) (plan : Plan) : List (String × Report) :=
  (processed wording t plan).flatMap fun f => f.reports.map (f.shown, ·)

/-! ### What is printed -/

/-- A delivery that does not fail prints what it has to say about each file. -/
theorem printed_deliver {outDir : Option String} {list : List Processed}
    (complete : (deliver a outDir t list).failure = none) :
    (deliver a outDir t list).printed
      = String.join (list.map fun f => emitted a f ++ reported a f) := by
  induction list generalizing t with
  | nil => rfl
  | cons f rest ih =>
    rw [deliver] at complete ⊢
    cases written : writeCode outDir t f with
    | error e =>
      rw [written] at complete
      cases complete
    | ok t' =>
      rw [written] at complete
      dsimp only
      rw [ih complete, List.map_cons, String.join_cons]

/-- The texts of the reports of some files are those of all reports. -/
theorem join_map_reports (list : List Processed) :
    String.join (list.map fun f => String.join (f.reports.map (Report.text f.shown)))
      = String.join ((list.flatMap fun f => f.reports.map (f.shown, ·)).map
          fun (file, r) => r.text file) := by
  induction list with
  | nil => rfl
  | cons f rest ih =>
    rw [List.map_cons, String.join_cons, ih, List.flatMap_cons, List.map_append, String.join_append,
      List.map_map]
    rfl

/-- A run that completes and prints no modules prints its reports: one after the other and with a
summary for a reader, or as a document. -/
theorem printed_eq_of_completes (completes : Completes wording t here a plan)
    (quiet : a.emit = false) :
    (runWith wording t here a).printed =
      match a.format with
      | .human => String.join ((reportsOf wording t plan).map fun (file, r) => r.text file)
          ++ ((Summary.ofProcessed (processed wording t plan)).text ++ "\n")
      | .json => Report.jsonAll (reportsOf wording t plan) ++ "\n" := by
  have noCode (f : Processed) : emitted a f = "" := by
    unfold emitted
    rw [quiet]
  rw [(runWith_of_completes completes).2, delivery, printed_deliver completes.written]
  unfold conclusion reported
  simp only [noCode, String.empty_append]
  cases a.format with
  | human => rw [join_map_reports, reportsOf]
  | json =>
    have nothing (list : List Processed) : String.join (list.map fun _ => "") = "" := by
      induction list with
      | nil => rfl
      | cons f rest ih => rw [List.map_cons, String.join_cons, ih, String.empty_append]
    rw [nothing, String.empty_append, reportsOf]

/-! ### Where reports come from -/

/-- A report about a file comes from a diagnostic that was noted while the file was transformed, in
the script of a module of its program. -/
structure Origin (t : FileTree) (options : Options) (path : String) (r : Report) (p : Program)
    (d : Diagnostic) (m : LoadedModule) : Prop where
  noted : ∃ x, transformFile t.sources options path = .ok (p, x) ∧ d ∈ x.diagnostics
  isModule : p.module? d.module = some m
  /-- The script is that of the file under the path of the module. -/
  text : t.sources.read? m.path = some m.text
  /-- The diagnostic points to a part of the script. -/
  placed : d.span ∈ m.spans
  /-- The line and the column are those of the start of that part. -/
  report : r = ⟨d.severity, d.code, d.message, m.position d.span.start⟩

/-- A report has the name of a file that has been processed. It says that the file could not be
loaded, or has the line and the column of a diagnostic in the module in which it was met; and this
module is the file itself exactly if it is the entry of the program. -/
theorem exists_origin_of_mem_reportsOf (wf : t.WellFormed) {file : String} {r : Report}
    (mem : (file, r) ∈ reportsOf wording t plan) :
    ∃ path ∈ plan.files, file = shownPath plan.workspace path ∧
      ((∃ e, Program.load t.sources path = .error e ∧ e.path = Path.normalize path ∧
          r = .ofLoadError wording e) ∨
        ∃ p d m, Origin t plan.options path r p d m ∧
          (m.path = Path.normalize path ↔ d.module = 0)) := by
  obtain ⟨f, inside, isReport⟩ := List.mem_flatMap.mp mem
  obtain ⟨path, isFile, rfl⟩ := List.mem_map.mp inside
  obtain ⟨r, isReport, rfl, rfl⟩ := List.exists_of_mem_map isReport
  refine ⟨path, isFile, process_shown .., ?_⟩
  cases loaded : Program.load t.sources path with
  | error e =>
    rw [process_of_load_error wording plan loaded] at isReport
    exact Or.inl ⟨e, rfl, Program.path_of_load_error loaded, List.mem_singleton.mp isReport⟩
  | ok p =>
    obtain ⟨entry, isEntry, transformed⟩ := Program.transformFile_eq loaded plan.options
    rw [process_of_transformFile wording transformed] at isReport
    obtain ⟨d, noted, rfl⟩ := List.mem_map.mp isReport
    -- A diagnostic is placed, so there is a module whose script it is in.
    have placed := Program.placed_of_mem_transformModule isEntry noted
    unfold Program.Placed Program.spansOf at placed
    cases isModule : p.module? d.module with
    | none =>
      rw [isModule] at placed
      cases placed
    | some m =>
      rw [isModule] at placed
      have report : Report.ofDiagnostic p d
          = ⟨d.severity, d.code, d.message, m.position d.span.start⟩ := by
        rw [Report.ofDiagnostic, Program.position, isModule]
        rfl
      exact Or.inr ⟨p, d, m, ⟨⟨_, transformed, noted⟩, isModule,
        Program.read?_of_mem_load loaded (List.mem_of_getElem? isModule), placed, report⟩,
        Program.path_eq_iff_of_load wf.nodup_paths_sources loaded isModule⟩

/-- A component without a type for its props, which declares props by hand in a way that is not
read. -/
def spreadingTree : FileTree := .ofList [
  ("/w/Card.ts", .file (.text "export const Card = defineComponent({ props: { ...shared } })\n"))]

/-- The report about the spread has the name of the file, and the position in it. -/
theorem exists_origin_of_mem_reportsOf_spread :
    ∃ plan, (Command.plan spreadingTree "/w" .standard).2 = .ok plan ∧ spreadingTree.WellFormed ∧
      ("Card.ts", (⟨.warning, .unsupportedPattern, Problem.spreadDeclaration.message, ⟨1, 48⟩⟩ :
          Report)) ∈ reportsOf .standard spreadingTree plan ∧
      ∃ path ∈ plan.files, "Card.ts" = shownPath plan.workspace path ∧
        ∃ p d m, Origin spreadingTree plan.options path
            ⟨.warning, .unsupportedPattern, Problem.spreadDeclaration.message, ⟨1, 48⟩⟩ p d m ∧
          (m.path = Path.normalize path ↔ d.module = 0) := by
  have wf : spreadingTree.WellFormed := by decide +kernel
  have completes : completesWith .standard spreadingTree "/w" .standard (fun plan =>
      decide (reportsOf .standard spreadingTree plan = [("Card.ts",
        ⟨.warning, .unsupportedPattern, Problem.spreadDeclaration.message, ⟨1, 48⟩⟩)])) = true := by
    decide +kernel
  obtain ⟨plan, completes, reports⟩ := exists_of_completesWith completes
  have mem := of_decide_eq_true reports ▸ List.mem_singleton_self _
  obtain ⟨path, isFile, shown, ⟨e, failed, -, same⟩ | origin⟩ :=
    exists_origin_of_mem_reportsOf wf mem
  · cases e <;> cases same
  · exact ⟨plan, completes.planned, wf, mem, path, isFile, shown, origin⟩

/-- A component whose props are an interface of another module, which extends a missing one. -/
def extendingTree : FileTree := .ofList [
  ("/Card.ts", .file (.text ("import type { Props } from './props'\n"
    ++ "export const Card = defineComponent<Props>({})\n"))),
  ("/props.ts", .file (.text "export interface Props extends Missing {}\n"))]

/-- Whether the component of a program has the props of an interface of the next module, which
extends a missing one in its first line. -/
def extendsMissing (p : Program) : Bool :=
  match p.module? 0, p.module? 1, p.declaration? ⟨1, "Props"⟩ with
  | some card, some props, some (.interfaceDecl _ _ [base] []) =>
    decide (namedComponent? card.items
        = some ("Card", ⟨⟨73, 78⟩, "Props"⟩, ⟨"Props", [], "Props"⟩) ∧
      p.symbolAt 0 ⟨"Props", [], "Props"⟩ = some ⟨0, "Props"⟩ ∧
      p.importOf? ⟨0, "Props"⟩ = some ([⟨Program.importHop 0 true, 1⟩], "Props") ∧
      p.finding 1 "Props" = .declared (some ⟨1, "Props"⟩) (Program.ownHop 1 false) ∧
      p.importOf? ⟨1, "Props"⟩ = none ∧ p.wholeImport ⟨1, "Props"⟩ = [] ∧
      base.name = some "Missing" ∧ p.lookup 1 "Missing" = none ∧
      props.path = "/props.ts" ∧ props.position base.loc.start = ⟨1, 32⟩)
  | _, _, _ => false

/-- The base that is missing stands in the first line of `props.ts`, and is reported as if it stood
in the first line of `Card.ts`. -/
theorem reports_base_of_import :
    ∃ plan p x d m,
      (Command.plan extendingTree "/" { Arguments.standard with paths := ["Card.ts"] }).2
          = .ok plan ∧
        transformFile extendingTree.sources plan.options "/Card.ts" = .ok (p, x) ∧
        x.diagnostics = [d] ∧ p.module? d.module = some m ∧
        m.path = "/props.ts" ∧ shownPath plan.workspace m.path = "props.ts" ∧
        m.position d.span.start = ⟨1, 32⟩ ∧
        (run .standard extendingTree "/" ["Card.ts"]).printed
          = "Card.ts:1:32\nWarning: cannot find type `Missing` (unresolved-symbol)\n\n"
            ++ (Summary.mk 1 1 0 1).text ++ "\n" := by
  have completes : completesWith .standard extendingTree "/"
      { Arguments.standard with paths := ["Card.ts"] } (fun plan =>
        decide (plan.workspace = "/." ∧ plan.options = .standard ∧ plan.files = ["/Card.ts"]))
      = true := by decide +kernel
  have loads : Program.loadsWith extendingTree.sources "/Card.ts" extendsMissing = true := by
    refine Program.loadsWith_of_written_entries (by repeat constructor) ?_
    decide +kernel
  obtain ⟨plan, completes, facts⟩ := exists_of_completesWith completes
  obtain ⟨workspace, standard, files⟩ := of_decide_eq_true facts
  obtain ⟨p, loaded, facts⟩ := Program.exists_of_loadsWith loads
  unfold extendsMissing at facts
  split at facts
  · rename_i card props id generics base isCard isProps declared
    obtain ⟨declares, bound, imported, found, stops, notWhole, named, unknown, path, position⟩ :=
      of_decide_eq_true facts
    have behind := Program.behindImports?_of_declared imported found stops notWhole
    -- The import is followed to the interface, whose base is the name that is not known.
    have members : p.expand 0 [] ⟨0, 0⟩ (.reference ⟨⟨73, 78⟩, "Props"⟩ ⟨"Props", [], "Props"⟩ [])
        = ⟨[], [⟨.unknownType "Missing", 1, base.loc⟩]⟩ := by
      rw [Program.expand_of_interface bound behind declared List.not_mem_nil,
        Program.expandBases_of_unknown named unknown]
      rfl
    have transformed := Program.transformFile_of_namedComponent? loaded isCard declares members
    rw [← standard] at transformed
    -- The report has the position in the script of the interface.
    have report : Report.ofDiagnostic p ⟨.unknownType "Missing", 1, base.loc⟩
        = ⟨.warning, .unresolvedSymbol, "cannot find type `Missing`", ⟨1, 32⟩⟩ := by
      rw [Report.ofDiagnostic, Program.position, isProps]
      show Report.mk _ _ _ (props.position base.loc.start) = _
      rw [position]
      rfl
    have shown : shownPath "/." "/Card.ts" = "Card.ts" := by decide +kernel
    have list := process_of_transformFile .standard transformed
    rw [List.map_singleton, report, workspace, shown] at list
    have reports : reportsOf .standard extendingTree plan = [("Card.ts",
        ⟨.warning, .unresolvedSymbol, "cannot find type `Missing`", ⟨1, 32⟩⟩)] := by
      rw [reportsOf, processed, files, List.map_singleton, list]
      rfl
    have summary : Summary.ofProcessed (processed .standard extendingTree plan)
        = ⟨1, 1, 0, 1⟩ := by
      rw [processed, files, List.map_singleton, list]
      rfl
    have isRun : Request.ofArguments ["Card.ts"]
        = .ok (.run { Arguments.standard with paths := ["Card.ts"] }) := rfl
    refine ⟨plan, p, _, _, props, completes.planned, transformed, rfl, isProps, path, ?_, position,
      ?_⟩
    · rw [workspace, path]
      decide +kernel
    · rw [run, isRun]
      dsimp only
      rw [printed_eq_of_completes completes rfl, reports, summary]
      decide +kernel
  · cases facts

end TypedProps.Command
