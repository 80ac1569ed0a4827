import TypedProps.Proofs.Command.Replanning
import TypedProps.Proofs.Component.Named

/-!
# `TypedProps.Proofs.Command.Rerun`: running twice

A run that is repeated on the tree it leaves finds the same options and the same files, loads the
same programs, and writes the same texts over those that are there. So it ends and prints as before
and leaves the tree as it is (`rerun_eq`), as long as the modules in the output directory are only
written: paths into it have to be recognized by its own path, and neither an import of a program nor
the options file that is asked for may lie there. Otherwise a second run can end differently
(`rerun_of_import`).
-/

set_option autoImplicit false

namespace TypedProps.Command

variable {t t' : FileTree} {here dir : String} {a : Arguments} {wording : Wording} {plan : Plan}
  {written : List (List String × String)}

/-! ### Processing and delivering again -/

/-- A file is processed as before if neither it nor a candidate of an import of its program is
written. -/
theorem process_again (writes : t.Writes written t')
    (generated : ∀ file ∈ written, Generated (target here a dir) file.1 ∧
      ∀ name ∈ file.1, Path.IsName name) {path : String}
    (away : ¬ Generated (target here a dir) (Path.Normal.ofPath path).names)
    (imports : ∀ p, Program.load t.sources path = .ok p → ∀ c ∈ importedPaths p,
      ¬ Generated (target here a dir) (Path.Normal.ofPath c).names) :
    process wording t'.sources plan path = process wording t.sources plan path := by
  have same {c : String} (h : ¬ Generated (target here a dir) (Path.Normal.ofPath c).names) :
      t.sources.SameAt t'.sources c :=
    writes.sources_sameAt (fun file mem => (generated file mem).2)
      (not_mem_of_not_generated (fun file mem => (generated file mem).1) h)
  have loads : Program.load t'.sources path = Program.load t.sources path := by
    refine Program.load_congr (same (by rwa [Path.names_normalize])) ?_
    intro p loaded m mem target isTarget isLocal c isCandidate
    refine same (imports p loaded c ?_)
    exact List.mem_flatMap.mpr ⟨m, mem, List.mem_flatMap.mpr
      ⟨target, List.mem_filter.mpr ⟨isTarget, isLocal⟩, isCandidate⟩⟩
  unfold process transformFile
  rw [loads]

/-- Writing a result leaves a tree closed. -/
theorem closed_of_writeCode {outDir : Option String} {f : Processed} (closed : t.Closed)
    (written : writeCode outDir t f = .ok t') : t'.Closed := by
  unfold writeCode at written
  split at written
  · split at written
    · rename_i wrote
      cases written
      exact closed.write wrote
    · cases written
  · cases written
    exact closed

/-- What has been written can be written again, over what is there. -/
theorem writeCode_again {outDir : Option String} {u : FileTree} {f : Processed} (closed : t.Closed)
    (written : writeCode outDir t f = .ok t') (keeps : t'.Keeps u) :
    ∃ u', writeCode outDir u f = .ok u' ∧ u'.keys = u.keys ∧ u.Keeps u' := by
  unfold writeCode at written ⊢
  cases outDir with
  | none => exact ⟨u, rfl, rfl, .refl u⟩
  | some dir =>
    cases isCode : f.code with
    | none => exact ⟨u, rfl, rfl, .refl u⟩
    | some code =>
      rw [isCode] at written
      dsimp only at written ⊢
      split at written
      · rename_i t₁ wrote
        cases written
        have writes : t.Writes
            ([] ++ [((Path.Normal.ofPath (destination dir f)).names, code)]) t' := .of_write wrote
        -- The file that has been written is still there.
        obtain ⟨content, entry⟩ : ∃ content, u.entry?
            (Path.Normal.ofPath (destination dir f)).names = some (.file content) :=
          (keeps _).2 _ (writes.entry?_of_last List.not_mem_nil)
        have noDirectory :
            u.isDirectoryAt (Path.Normal.ofPath (destination dir f)).names = false := by
          rw [FileTree.isDirectoryAt, entry]
          rfl
        have listed := FileTree.mem_keys_of_entry?_eq_some
          (FileTree.ne_nil_of_not_isDirectoryAt noDirectory) entry
        rw [FileTree.write_again closed wrote keeps code]
        exact ⟨_, rfl, by rw [FileTree.keys_put, if_pos listed], .put_file noDirectory _⟩
      · cases written

/-- What has been delivered can be delivered again, over what is there. -/
theorem deliver_again {outDir : Option String} {u : FileTree} {list : List Processed}
    (closed : t.Closed) (complete : (deliver a outDir t list).failure = none)
    (keeps : (deliver a outDir t list).tree.Keeps u) :
    (deliver a outDir u list).failure = none ∧
      (deliver a outDir u list).printed = (deliver a outDir t list).printed ∧
      (deliver a outDir u list).tree.keys = u.keys := by
  -- By induction on the list. `u` keeps what the first delivery has written, so each file is
  -- written over itself.
  induction list generalizing t u with
  | nil => exact ⟨rfl, rfl, rfl⟩
  | cons f rest ih =>
    rw [deliver] at complete keeps ⊢
    cases written : writeCode outDir t f with
    | error e =>
      rw [written] at complete
      cases complete
    | ok t₁ =>
      rw [written] at complete keeps
      obtain ⟨before, after, -, writes, -⟩ := exists_writes_of_deliver a outDir t₁ rest
      obtain ⟨u₁, again, keys, keeps'⟩ :=
        writeCode_again closed written (writes.keeps.trans keeps)
      obtain ⟨complete', printed, keys'⟩ :=
        ih (closed_of_writeCode closed written) complete (keeps.trans keeps')
      rw [again, deliver, written]
      refine ⟨complete', ?_, keys'.trans keys⟩
      dsimp only
      rw [printed]

/-- A run that completes completes again on the tree that it leaves, with the same plan. -/
theorem again_of_completes (wf : t.WellFormed) (absolute : Path.isAbsolute here = true)
    (recognized : Recognized t here a dir) (out : a.outDir = some dir)
    (completes : Completes wording t here a plan) (level : plan.Level)
    (config : ∀ path, a.config = some path → ¬ Generated (target here a dir)
      (Path.Normal.ofPath (Path.join (Path.join here a.workspace) path)).names)
    (imports : ∀ path ∈ plan.files, ∀ p, Program.load t.sources path = .ok p →
      ∀ c ∈ importedPaths p, ¬ Generated (target here a dir) (Path.Normal.ofPath c).names) :
    let first := runWith wording t here a
    Completes wording first.tree here a plan ∧
      processed wording first.tree plan = processed wording t plan ∧
      (delivery wording first.tree a plan).printed = (delivery wording t a plan).printed ∧
      (delivery wording first.tree a plan).tree = first.tree := by
  intro first
  have planned := completes.planned
  have levels (other : Plan) (planned' : (Command.plan t here a).2 = .ok other) : other.Level := by
    obtain rfl := Except.ok.inj (planned.symm.trans planned')
    exact level
  obtain ⟨written, writes, generated⟩ := exists_writes_generated wording wf absolute out levels
  have planned' := plan_again writes wf absolute recognized out generated config planned
  have list : processed wording first.tree plan = processed wording t plan := by
    refine List.map_congr_left fun path mem => process_again writes generated ?_ (imports path mem)
    exact fun isGenerated =>
      not_prefix_of_mem_files wf planned mem recognized out isGenerated.1
  have made : delivery wording first.tree a plan
      = deliver a plan.outDir first.tree (processed wording t plan) := by
    rw [delivery, list]
  have left : first.tree = (delivery wording t a plan).tree := tree_runWith planned
  have keeps : (delivery wording t a plan).tree.Keeps first.tree := left ▸ .refl _
  obtain ⟨complete, printed, keys⟩ := deliver_again wf.closed completes.written keeps
  refine ⟨⟨planned', by rw [made]; exact complete⟩, list, by rw [made]; exact printed, ?_⟩
  -- Both runs write the same files in the same order.
  obtain ⟨before, after, all, writes₁, whole⟩ :=
    exists_writes_of_deliver a plan.outDir t (processed wording t plan)
  obtain ⟨before', after', all', writes₂, whole'⟩ :=
    exists_writes_of_deliver a plan.outDir first.tree (processed wording t plan)
  rw [whole completes.written, List.append_nil] at all
  rw [whole' complete, List.append_nil] at all'
  rw [← all] at writes₁
  rw [← all'] at writes₂
  rw [made]
  have noRoot : [] ∉ t.keys := fun mem => (wf.named [] mem).1 rfl
  have left' : t.Writes (outputs plan.outDir (processed wording t plan)) first.tree := by
    rw [left]
    exact writes₁
  exact left'.eq_of_again writes₂ wf.nodup noRoot keys

/-- A run can be repeated if it writes all that it has made, to an output directory that is
recognized, and if no module is shown by a path that goes up and neither its imports nor its options
lead to a module in the output directory. The second run has the same plan, in which there is no
file of the output directory, ends and prints in the same way, and leaves the tree as it is. -/
theorem rerun_eq (wf : t.WellFormed) (absolute : Path.isAbsolute here = true)
    (out : a.outDir = some dir) (recognized : Recognized t here a dir)
    (level : ∀ plan, (Command.plan t here a).2 = .ok plan → plan.Level)
    (complete : ∀ plan, (Command.plan t here a).2 = .ok plan →
      (delivery wording t a plan).failure = none)
    (config : ∀ path, a.config = some path → ¬ Generated (target here a dir)
      (Path.Normal.ofPath (Path.join (Path.join here a.workspace) path)).names)
    (imports : ∀ plan, (Command.plan t here a).2 = .ok plan → ∀ path ∈ plan.files,
      ∀ p, Program.load t.sources path = .ok p → ∀ c ∈ importedPaths p,
        ¬ Generated (target here a dir) (Path.Normal.ofPath c).names) :
    let first := runWith wording t here a
    let second := runWith wording first.tree here a
    (Command.plan first.tree here a).2 = (Command.plan t here a).2 ∧
      (∀ plan, (Command.plan t here a).2 = .ok plan → ∀ path ∈ plan.files,
        ¬ target here a dir <+: (Path.Normal.ofPath path).names) ∧
      second.exitCode = first.exitCode ∧ second.printed = first.printed ∧
      second.tree = first.tree := by
  intro first second
  have outside : ∀ plan, (Command.plan t here a).2 = .ok plan → ∀ path ∈ plan.files,
      ¬ target here a dir <+: (Path.Normal.ofPath path).names :=
    fun plan planned path mem => not_prefix_of_mem_files wf planned mem recognized out
  cases planned : (Command.plan t here a).2 with
  | error e =>
    have same : first.tree = t := tree_runWith_of_error planned
    have again : second = first := by
      show runWith wording first.tree here a = runWith wording t here a
      rw [same]
    rw [again, same]
    exact ⟨planned, planned ▸ outside, rfl, rfl, rfl⟩
  | ok plan =>
    have completes : Completes wording t here a plan := ⟨planned, complete plan planned⟩
    obtain ⟨completes', list, printed, tree⟩ := again_of_completes wf absolute recognized out
      completes (level plan planned) config (imports plan planned)
    obtain ⟨exit₁, printed₁⟩ := runWith_of_completes completes
    obtain ⟨exit₂, printed₂⟩ := runWith_of_completes completes'
    refine ⟨completes'.planned, planned ▸ outside, ?_, ?_, ?_⟩
    · rw [exit₂, exit₁, list]
    · rw [printed₂, printed₁, list, printed]
    · exact (tree_runWith completes'.planned).trans tree

/-- A workspace with two modules, one of which imports the other, and a directory next to it. -/
def pairTree : FileTree := .ofList [
  ("/w/src/a.ts", .file (.text "import { b } from './b'\nexport const a = b + 1\n")),
  ("/w/src/b.ts", .file (.text "export const b = 1\n")),
  ("/x", .directory)]

/-- Whether no import of the program of a file may lead to a module in a directory. -/
def importsApart (t : FileTree) (dir : List String) (path : String) : Bool :=
  match Program.load t.sources path with
  | .error _ => true
  | .ok p => (importedPaths p).all fun c =>
    !decide (Generated dir (Path.Normal.ofPath c).names)

theorem not_generated_of_importsApart {dir : List String} {path : String} {p : Program}
    (apart : importsApart t dir path = true) (loaded : Program.load t.sources path = .ok p) :
    ∀ c ∈ importedPaths p, ¬ Generated dir (Path.Normal.ofPath c).names := by
  rw [importsApart, loaded, List.all_eq_true] at apart
  simpa using apart

/-- A run over the workspace from the directory next to it, by a path that goes up, can be
repeated. -/
theorem rerun_eq_pair :
    let a := { Arguments.standard with workspace := "../w", outDir := some "out" }
    let first := runWith .standard pairTree "/x" a
    let second := runWith .standard first.tree "/x" a
    pairTree.WellFormed ∧ Path.isAbsolute "/x" = true ∧ a.outDir = some "out" ∧
      Recognized pairTree "/x" a "out" ∧ a.config = none ∧
      (∃ plan, Completes .standard pairTree "/x" a plan ∧ plan.Level ∧
        plan.files = ["/x/../w/src/a.ts", "/x/../w/src/b.ts"]) ∧
      second.exitCode = first.exitCode ∧ second.printed = first.printed ∧
      second.tree = first.tree := by
  intro a
  dsimp only
  have wf : pairTree.WellFormed := by decide +kernel
  have absolute : Path.isAbsolute "/x" = true := rfl
  have out : a.outDir = some "out" := rfl
  have recognized : Recognized pairTree "/x" a "out" :=
    recognized_of_relative absolute rfl (by decide) rfl (by decide)
  have completes : completesWith .standard pairTree "/x" a (fun plan =>
      decide plan.Level && plan.files == ["/x/../w/src/a.ts", "/x/../w/src/b.ts"] &&
      plan.files.all (importsApart pairTree (target "/x" a "out"))) = true := by
    decide +kernel
  obtain ⟨plan, completes, facts⟩ := exists_of_completesWith completes
  rw [Bool.and_eq_true, Bool.and_eq_true, List.all_eq_true] at facts
  obtain ⟨⟨level, files⟩, apart⟩ := facts
  -- The program computes one plan, so facts about this plan are facts about all.
  have only (other : Plan) (planned : (Command.plan pairTree "/x" a).2 = .ok other) :
      other = plan := Except.ok.inj (planned.symm.trans completes.planned)
  have imports : ∀ path ∈ plan.files, ∀ p, Program.load pairTree.sources path = .ok p →
      ∀ c ∈ importedPaths p,
        ¬ Generated (target "/x" a "out") (Path.Normal.ofPath c).names :=
    fun path mem _ loaded => not_generated_of_importsApart (apart path mem) loaded
  have again := rerun_eq wf absolute out recognized
    (fun other planned => only other planned ▸ of_decide_eq_true level)
    (fun other planned => only other planned ▸ completes.written) (fun path given => by cases given)
    (fun other planned => only other planned ▸ imports)
  exact ⟨wf, absolute, out, recognized, rfl,
    ⟨plan, completes, of_decide_eq_true level, eq_of_beq files⟩, again.2.2⟩

/-! ### Imports from the output directory -/

/-- A component that imports the interface of its props from the output directory. -/
def cardText : String :=
  "import type { Props } from '../out/src/props'\nexport const Card = defineComponent<Props>({})\n"

/-- The interface, in a module of the workspace. -/
def propsText : String := "export interface Props { title(): string }\n"

/-- The component with the patch for some props behind it. -/
def patchedText (props : List Property) : String :=
  cardText ++ "\n" ++ Patch.textAll .standard [("Card", ⟨Property.firsts props, [], []⟩)]

/-- The patch for the method is another one than that for no props. -/
theorem patchedText_ne :
    patchedText [⟨"title", some ⟨[.function], some "Function"⟩, true, none, []⟩]
      ≠ patchedText [] := by
  -- Only the statements have to be compared, which stand behind the same text.
  intro same
  have same := (String.append_right_inj _).mp same
  revert same
  decide +kernel

/-- The workspace before the first run. -/
def importingTree : FileTree := .ofList [
  ("/src/Card.ts", .file (.text cardText)), ("/src/props.ts", .file (.text propsText))]

/-- The workspace after the first run. -/
def importedTree : FileTree := .ofList [
  ("/src/Card.ts", .file (.text cardText)), ("/src/props.ts", .file (.text propsText)),
  ("/out/src/Card.ts", .file (.text (patchedText []))),
  ("/out/src/props.ts", .file (.text propsText))]

/-- The arguments of both runs. -/
def outArguments : Arguments := { Arguments.standard with outDir := some "out" }

/-- What both runs make of the two modules, up to the reports and the props of the component. -/
def bothProcessed (reports : List Report) (props : List Property) : List Processed :=
  [⟨"src/Card.ts", reports, some (patchedText props), 1, []⟩,
    ⟨"src/props.ts", [], some propsText, 0, []⟩]

/-- Whether a run over a tree is planned for the two modules. -/
def plansBoth (t : FileTree) : Bool :=
  plannedWith t "/" outArguments fun plan =>
    decide (plan.workspace = "/." ∧ plan.options = .standard ∧ plan.outDir = some "/./out" ∧
      plan.files = ["/./src/Card.ts", "/./src/props.ts"])

/-- Whether the two modules can be loaded, and the program of the component passes a test. -/
def loadsBoth (t : FileTree) (test : Program → Bool) : Bool :=
  Program.loadsWith t.sources "/./src/Card.ts" (fun p =>
    match p.module? 0 with
    | some card => test p && decide (card.text = cardText ∧ p.failures = [] ∧
        namedComponent? card.items
          = some ("Card", ⟨⟨82, 87⟩, "Props"⟩, ⟨"Props", [], "Props"⟩) ∧
        p.symbolAt 0 ⟨"Props", [], "Props"⟩ = some ⟨0, "Props"⟩)
    | none => false) &&
  Program.loadsWith t.sources "/./src/props.ts" (fun p =>
    match p.module? 0 with
    | some props => (props.items.flatMap Item.variables).isEmpty &&
      decide (props.text = propsText ∧ p.failures = [])
    | none => false)

/-- A run over a tree is planned for the two modules, both can be loaded, and the program of the
component passes a test. -/
structure RunsBoth (t : FileTree) (test : Program → Bool) : Prop where
  plans : plansBoth t = true
  loads : loadsBoth t test = true

/-- What a run makes of the two modules depends on the members of the props. -/
theorem processed_of_loadsBoth {test : Program → Bool} (loads : loadsBoth t test = true)
    (workspace : plan.workspace = "/.") (standard : plan.options = .standard)
    (files : plan.files = ["/./src/Card.ts", "/./src/props.ts"]) :
    ∃ p, test p = true ∧ p.symbolAt 0 ⟨"Props", [], "Props"⟩ = some ⟨0, "Props"⟩ ∧
      (∃ card, p.module? 0 = some card ∧ card.text = cardText) ∧
      ∀ members, p.expand 0 [] ⟨0, 0⟩
          (.reference ⟨⟨82, 87⟩, "Props"⟩ ⟨"Props", [], "Props"⟩ []) = members →
        processed .standard t plan
          = bothProcessed (members.notes.map (Report.ofDiagnostic p)) members.value := by
  obtain ⟨loads, loads'⟩ := Bool.and_eq_true_iff.mp loads
  obtain ⟨p, loaded, facts⟩ := Program.exists_of_loadsWith loads
  obtain ⟨p', loaded', facts'⟩ := Program.exists_of_loadsWith loads'
  split at facts
  · rename_i card isCard
    split at facts'
    · rename_i props isProps
      obtain ⟨passes, texts⟩ := Bool.and_eq_true_iff.mp facts
      obtain ⟨text, noFailures, declares, bound⟩ := of_decide_eq_true texts
      obtain ⟨noVariables, texts'⟩ := Bool.and_eq_true_iff.mp facts'
      obtain ⟨text', noFailures'⟩ := of_decide_eq_true texts'
      refine ⟨p, passes, bound, ⟨card, isCard, text⟩, fun members expanded => ?_⟩
      have transformed :=
        Program.transformFile_of_namedComponent? loaded isCard declares expanded
      have transformed' := Program.transformFile_of_no_variables loaded' isProps
        (List.isEmpty_iff.mp noVariables)
      have shown : shownPath "/." "/./src/Card.ts" = "src/Card.ts" := rfl
      have shown' : shownPath "/." "/./src/props.ts" = "src/props.ts" := rfl
      rw [← standard] at transformed transformed'
      rw [processed, files, List.map_cons, List.map_singleton,
        process_of_transformFile .standard transformed,
        process_of_transformFile .standard transformed', workspace, shown, shown', text, text',
        noFailures, noFailures', standard]
      rfl
    · cases facts'
  · cases facts

/-- So does how it ends, what it prints and what it leaves. -/
theorem RunsBoth.run {test : Program → Bool} (both : RunsBoth t test) :
    ∃ p, test p = true ∧ p.symbolAt 0 ⟨"Props", [], "Props"⟩ = some ⟨0, "Props"⟩ ∧
      (∃ card, p.module? 0 = some card ∧ card.text = cardText) ∧
      ∀ members, p.expand 0 [] ⟨0, 0⟩
          (.reference ⟨⟨82, 87⟩, "Props"⟩ ⟨"Props", [], "Props"⟩ []) = members →
        let list := bothProcessed (members.notes.map (Report.ofDiagnostic p)) members.value
        let outcome := Command.run .standard t "/" ["--out-dir", "out"]
        let delivered := deliver outArguments (some "/./out") t list
        delivered.failure = none →
        outcome.exitCode = (if (Summary.ofProcessed list).failed false then 1 else 0) ∧
          outcome.printed = delivered.printed ++ conclusion outArguments list ∧
          outcome.tree = delivered.tree := by
  obtain ⟨plan, planned, facts⟩ := exists_of_plannedWith both.plans
  obtain ⟨workspace, standard, outDir, files⟩ := of_decide_eq_true facts
  obtain ⟨p, passes, bound, card, made⟩ :=
    processed_of_loadsBoth both.loads workspace standard files
  refine ⟨p, passes, bound, card, fun members expanded => ?_⟩
  intro list outcome delivered complete
  have completes : Completes .standard t "/" outArguments plan := by
    refine ⟨planned, ?_⟩
    rw [delivery, made members expanded, outDir]
    exact complete
  obtain ⟨exit, printed⟩ := runWith_of_completes completes
  have tree : (runWith .standard t "/" outArguments).tree = _ := tree_runWith planned
  rw [delivery, made members expanded, outDir] at printed tree
  rw [made members expanded] at exit
  exact ⟨exit, printed, tree⟩

/-- The first run does not find the interface. -/
theorem run_importingTree :
    let outcome := run .standard importingTree "/" ["--out-dir", "out"]
    outcome.exitCode = 0 ∧
      outcome.printed = "src/Card.ts:2:37\nWarning: import `Props` does not resolve to a local "
        ++ "type alias or interface (unresolved-import)\n\n" ++ (Summary.mk 2 1 0 1).text ++ "\n" ∧
      outcome.tree = importedTree := by
  have both : RunsBoth importingTree fun p => decide (
      p.importOf? ⟨0, "Props"⟩ = some ([], "Props")) := by
    refine ⟨by decide +kernel, Bool.and_eq_true_iff.mpr ⟨?_, ?_⟩⟩
    all_goals
      refine Program.loadsWith_of_written_entries (by repeat constructor) ?_
      decide +kernel
  obtain ⟨p, imported, bound, ⟨card, isCard, text⟩, made⟩ := both.run
  have report : Report.ofDiagnostic p ⟨.unresolvedImport "Props", 0, ⟨82, 87⟩⟩
      = ⟨.warning, .unresolvedImport, (Problem.unresolvedImport "Props").message, ⟨2, 37⟩⟩ := by
    rw [Report.ofDiagnostic, Program.position, isCard]
    show Report.mk _ _ _ (Position.ofOffset (scriptOf card.text) 82) = _
    rw [text]
    decide +kernel
  have made := made _ (Program.expand_of_unresolved bound
    (Program.behindImports?_of_missing (of_decide_eq_true imported)))
  rw [List.map_singleton, report] at made
  obtain ⟨exit, printed, tree⟩ := made (by decide +kernel)
  dsimp only
  rw [exit, printed, tree]
  refine ⟨?_, ?_, ?_⟩
  · decide +kernel
  · decide +kernel
  · decide +kernel

/-- Whether the import leads to an interface of the first module that is imported, which has the
method that is shown as a function. -/
def findsProps (p : Program) : Bool :=
  match p.declaration? ⟨1, "Props"⟩ with
  | some (.interfaceDecl _ _ [] members) => decide (
      p.importOf? ⟨0, "Props"⟩ = some ([⟨Program.importHop 0 true, 1⟩], "Props") ∧
      p.finding 1 "Props" = .declared (some ⟨1, "Props"⟩) (Program.ownHop 1 false) ∧
      p.importOf? ⟨1, "Props"⟩ = none ∧ p.wholeImport ⟨1, "Props"⟩ = [] ∧
      (p.propertiesOfMembers 0 (.inside 1) members).value
        = [⟨"title", some ⟨[.function], some "Function"⟩, true, none, []⟩] ∧
      (p.propertiesOfMembers 0 (.inside 1) members).notes = [])
  | _ => false

/-- The second run finds it in the output directory. -/
theorem run_importedTree :
    let outcome := run .standard importedTree "/" ["--out-dir", "out"]
    outcome.exitCode = 0 ∧ outcome.printed = (Summary.mk 2 1 0 0).text ++ "\n" ∧
      outcome.tree.entry? ["out", "src", "Card.ts"] = some (.file (.text
        (patchedText [⟨"title", some ⟨[.function], some "Function"⟩, true, none, []⟩]))) := by
  have both : RunsBoth importedTree findsProps := by
    refine ⟨by decide +kernel, Bool.and_eq_true_iff.mpr ⟨?_, ?_⟩⟩
    all_goals
      refine Program.loadsWith_of_written_entries (by repeat constructor) ?_
      decide +kernel
  obtain ⟨p, found, bound, -, made⟩ := both.run
  unfold findsProps at found
  split at found
  · rename_i id generics members declared
    obtain ⟨imported, exported, stops, notWhole, value, notes⟩ := of_decide_eq_true found
    have behind := Program.behindImports?_of_declared imported exported stops notWhole
    have expanded : p.expand 0 [] ⟨0, 0⟩
        (.reference ⟨⟨82, 87⟩, "Props"⟩ ⟨"Props", [], "Props"⟩ [])
        = ⟨[⟨"title", some ⟨[.function], some "Function"⟩, true, none, []⟩], []⟩ := by
      rw [Program.expand_of_interface bound behind declared List.not_mem_nil,
        Program.expandBases_nil]
      show Noted.mk ((p.propertiesOfMembers 0 (.inside 1) members).value ++ [])
        ((p.propertiesOfMembers 0 (.inside 1) members).notes ++ []) = _
      rw [value, notes]
      rfl
    have made := made _ expanded
    rw [List.map_nil] at made
    obtain ⟨exit, printed, tree⟩ := made (by decide +kernel)
    dsimp only
    rw [exit, printed, tree]
    refine ⟨?_, ?_, ?_⟩
    · decide +kernel
    · decide +kernel
    · decide +kernel
  · cases found

/-- A second run finds the interface that the first one has missed, so it prints no warning, and it
changes what the first one has written. -/
theorem rerun_of_import :
    let run := fun t => run .standard t "/" ["--out-dir", "out"]
    let first := run importingTree
    let second := run first.tree
    first.exitCode = 0 ∧ second.exitCode = 0 ∧ second.printed ≠ first.printed ∧
      second.tree.entry? ["out", "src", "Card.ts"]
        ≠ first.tree.entry? ["out", "src", "Card.ts"] := by
  intro run
  dsimp only
  have isRun (t : FileTree) : run t = Command.run .standard t "/" ["--out-dir", "out"] := rfl
  rw [isRun, isRun]
  obtain ⟨exit₁, printed₁, tree₁⟩ := run_importingTree
  obtain ⟨exit₂, printed₂, file₂⟩ := run_importedTree
  rw [tree₁]
  refine ⟨exit₁, exit₂, ?_, ?_⟩
  · rw [printed₁, printed₂]
    decide
  · have file₁ : importedTree.entry? ["out", "src", "Card.ts"]
        = some (.file (.text (patchedText []))) := rfl
    rw [file₂, file₁]
    simpa using patchedText_ne

end TypedProps.Command
