import Mathlib.Data.List.Pairwise
import TypedProps.Proofs.Command.Delivery

/-!
# `TypedProps.Proofs.Command.Destinations`: which module ends up where

Modules of one run that lie in the workspace are written to different files. A module that lies
elsewhere is written under its bare name, and so shares its file with every other module that is
shown by that name (`landing_eq_iff_bare`). What a file holds in the end is the code of the last
module that is written to it, so the code of a module is lost exactly if a later one shares its file
(`destinations_of_completes`).
-/

set_option autoImplicit false

namespace TypedProps.Command

variable {t : FileTree} {here : String} {a : Arguments} {wording : Wording} {plan : Plan}

/-- A module is shown by its bare name: it lies directly in the workspace, or elsewhere. -/
def Bare (workspace path name : String) : Prop :=
  Path.fileName? path = some name ∧ (Path.startsWith path workspace = true →
    Path.steps path = Path.steps workspace ++ [.name name])

instance (workspace path name : String) : Decidable (Bare workspace path name) :=
  inferInstanceAs (Decidable (_ ∧ _))

/-- Relative paths that do not go up lead from a directory to the same file exactly if they have the
same steps. -/
theorem landing_eq_iff_steps (dir : String) {shown shown' : String}
    (relative : Path.isAbsolute shown = false) (relative' : Path.isAbsolute shown' = false)
    (descends : Path.Descends shown) (descends' : Path.Descends shown') :
    landing dir shown = landing dir shown' ↔ Path.steps shown = Path.steps shown' := by
  obtain ⟨names, eq, -⟩ := Path.steps_eq_map_of_descends descends
  obtain ⟨names', eq', -⟩ := Path.steps_eq_map_of_descends descends'
  rw [landing, landing, Path.names_join dir relative, Path.names_join dir relative', eq, eq',
    Path.foldl_step_map_name, Path.foldl_step_map_name, List.append_cancel_left_eq,
    Path.name_injective.list_map.eq_iff]

/-- The path by which a module is shown is a single name exactly if it is its bare name. -/
theorem steps_shownPath_eq_singleton_iff (name : String) {workspace path : String}
    (absolute : Path.isAbsolute path = true) (workspaceAbsolute : Path.isAbsolute workspace = true)
    (named : (Path.fileName? path).isSome = true) :
    Path.steps (shownPath workspace path) = [.name name] ↔ Bare workspace path name := by
  unfold Bare
  cases lies : Path.startsWith path workspace with
  | true =>
    obtain ⟨-, behind⟩ := shownPath_of_inside absolute workspaceAbsolute lies
    rw [Path.fileName?_eq_some_iff absolute, behind]
    constructor
    · intro single
      rw [single]
      exact ⟨List.getLast?_concat, fun _ => rfl⟩
    · rintro ⟨-, direct⟩
      exact List.append_cancel_left (direct rfl)
  | false =>
    obtain ⟨own, isOwn⟩ := Option.isSome_iff_exists.mp named
    rw [shownPath_of_outside absolute workspaceAbsolute lies isOwn,
      (Path.isName_of_fileName? absolute isOwn).steps_eq, isOwn]
    simp

/-- The files of a plan have different steps. -/
theorem eq_of_steps_eq (absolute : Path.isAbsolute here = true)
    (planned : (Command.plan t here a).2 = .ok plan) {p q : String} (memP : p ∈ plan.files)
    (memQ : q ∈ plan.files) (same : Path.steps p = Path.steps q) : p = q := by
  by_contra ne
  have different : Path.components p ≠ Path.components q := by
    have symmetric : Std.Symm fun a b : String => Path.components a ≠ Path.components b :=
      ⟨fun _ _ h => h.symm⟩
    exact ((pairwise_files planned).imp fun h => h.components_ne).forall memP memQ ne
  rw [Path.components_of_isAbsolute (isAbsolute_of_mem_files absolute planned memP),
    Path.components_of_isAbsolute (isAbsolute_of_mem_files absolute planned memQ), same]
    at different
  exact different rfl

section Collisions

variable (absolute : Path.isAbsolute here = true) (planned : (Command.plan t here a).2 = .ok plan)
  (level : plan.Level)
include absolute planned

/-- The facts about a file of a plan on which its destination depends. -/
theorem facts_of_mem_files {p : String} (mem : p ∈ plan.files) :
    Path.isAbsolute p = true ∧ Path.isAbsolute plan.workspace = true ∧
      ∃ name, Path.fileName? p = some name := by
  obtain ⟨root, -, -, ⟨name, named, -⟩, -⟩ := exists_root_of_mem_files planned mem
  exact ⟨isAbsolute_of_mem_files absolute planned mem, isAbsolute_workspace absolute planned, name,
    named⟩

include level

/-- Two modules of a plan share a destination exactly if they are shown by the same steps. -/
theorem landing_eq_iff_shown (dir : String) {p q : String} (memP : p ∈ plan.files)
    (memQ : q ∈ plan.files) :
    landing dir (shownPath plan.workspace p) = landing dir (shownPath plan.workspace q) ↔
      Path.steps (shownPath plan.workspace p) = Path.steps (shownPath plan.workspace q) := by
  exact landing_eq_iff_steps dir (isAbsolute_shownPath_of_mem_files absolute planned memP)
    (isAbsolute_shownPath_of_mem_files absolute planned memQ) (level p memP) (level q memQ)

/-- Modules in the workspace do not share a destination. -/
theorem eq_of_landing_eq (dir : String) {p q : String} (memP : p ∈ plan.files)
    (memQ : q ∈ plan.files) (insideP : Path.startsWith p plan.workspace = true)
    (insideQ : Path.startsWith q plan.workspace = true)
    (same : landing dir (shownPath plan.workspace p) = landing dir (shownPath plan.workspace q)) :
    p = q := by
  obtain ⟨absoluteP, workspaceAbsolute, -⟩ := facts_of_mem_files absolute planned memP
  obtain ⟨absoluteQ, -, -⟩ := facts_of_mem_files absolute planned memQ
  have shown := (landing_eq_iff_shown absolute planned level dir memP memQ).mp same
  apply eq_of_steps_eq absolute planned memP memQ
  rw [(shownPath_of_inside absoluteP workspaceAbsolute insideP).2,
    (shownPath_of_inside absoluteQ workspaceAbsolute insideQ).2, shown]

/-- Different modules share a destination exactly if both are shown by the same bare name. -/
theorem landing_eq_iff_bare (dir : String) {p q : String} (memP : p ∈ plan.files)
    (memQ : q ∈ plan.files) (ne : p ≠ q) :
    landing dir (shownPath plan.workspace p) = landing dir (shownPath plan.workspace q) ↔
      ∃ name, Bare plan.workspace p name ∧ Bare plan.workspace q name := by
  obtain ⟨absoluteP, workspaceAbsolute, nameP, namedP⟩ := facts_of_mem_files absolute planned memP
  obtain ⟨absoluteQ, -, nameQ, namedQ⟩ := facts_of_mem_files absolute planned memQ
  have bareP (name : String) := steps_shownPath_eq_singleton_iff name absoluteP
    workspaceAbsolute (by rw [namedP]; rfl)
  have bareQ (name : String) := steps_shownPath_eq_singleton_iff name absoluteQ
    workspaceAbsolute (by rw [namedQ]; rfl)
  rw [landing_eq_iff_shown absolute planned level dir memP memQ]
  constructor
  · intro same
    -- They do not both lie in the workspace, and one that does not is shown by its name.
    cases insideP : Path.startsWith p plan.workspace with
    | false =>
      have bare : Bare plan.workspace p nameP := ⟨namedP, fun inside => by
        rw [insideP] at inside
        cases inside⟩
      exact ⟨nameP, bare, (bareQ nameP).mp (same ▸ (bareP nameP).mpr bare)⟩
    | true =>
      cases insideQ : Path.startsWith q plan.workspace with
      | false =>
        have bare : Bare plan.workspace q nameQ := ⟨namedQ, fun inside => by
          rw [insideQ] at inside
          cases inside⟩
        exact ⟨nameQ, (bareP nameQ).mp (same ▸ (bareQ nameQ).mpr bare), bare⟩
      | true =>
        have landings := (landing_eq_iff_shown absolute planned level dir memP memQ).mpr same
        exact absurd (eq_of_landing_eq absolute planned level dir memP memQ insideP insideQ
          landings) ne
  · rintro ⟨name, isBareP, isBareQ⟩
    rw [(bareP name).mpr isBareP, (bareQ name).mpr isBareQ]

end Collisions

/-- What a completed run leaves at a destination is the code of the last module that it is for. -/
theorem entry?_landing_of_last {dir : String} (completes : Completes wording t here a plan)
    (out : plan.outDir = some dir) {before after : List String} {path code : String}
    (files : plan.files = before ++ path :: after)
    (isCode : (process wording t.sources plan path).code = some code)
    (last : ∀ q ∈ after, (process wording t.sources plan q).code ≠ none →
      landing dir (shownPath plan.workspace q) ≠ landing dir (shownPath plan.workspace path)) :
    FileTree.entry? (runWith wording t here a).tree (landing dir (shownPath plan.workspace path))
      = some (.file (.text code)) := by
  obtain ⟨front, back, all, writes, complete⟩ :=
    exists_writes_of_deliver a plan.outDir t (processed wording t plan)
  rw [complete completes.written, List.append_nil] at all
  rw [tree_runWith completes.planned]
  -- What is written behind the file goes elsewhere, so its code stays.
  have split : outputs plan.outDir (processed wording t plan)
      = outputs plan.outDir (before.map (process wording t.sources plan))
        ++ (landing dir (shownPath plan.workspace path), code)
          :: outputs plan.outDir (after.map (process wording t.sources plan)) := by
    unfold outputs processed
    rw [files, List.map_append, List.map_cons, List.filterMap_append, List.filterMap_cons, out,
      isCode, process_shown]
  rw [← all, split] at writes
  refine writes.entry?_of_last fun mem => ?_
  obtain ⟨file, inside, eq⟩ := List.mem_map.mp mem
  obtain ⟨f, isF, made⟩ := List.mem_filterMap.mp inside
  obtain ⟨q, later, rfl⟩ := List.mem_map.mp isF
  rw [out] at made
  split at made
  · rename_i dir' code' same isCode'
    cases same
    obtain rfl := Option.some.inj made
    rw [process_shown] at eq
    exact last q later (by rw [isCode']; exact Option.some_ne_none _) eq
  · cases made

/-- In a completed run in which no module is shown by a path that goes up, different modules in the
workspace have different destinations, and different modules share one exactly if both are shown by
the same bare name. The file at the destination of a loaded module has the code of that module,
unless a loaded module that comes later in the plan shares the destination. -/
theorem destinations_of_completes {dir : String} (absolute : Path.isAbsolute here = true)
    (completes : Completes wording t here a plan) (level : plan.Level)
    (out : plan.outDir = some dir) :
    (∀ p ∈ plan.files, ∀ q ∈ plan.files, Path.startsWith p plan.workspace = true →
      Path.startsWith q plan.workspace = true → p ≠ q →
      landing dir (shownPath plan.workspace p) ≠ landing dir (shownPath plan.workspace q)) ∧
    (∀ p ∈ plan.files, ∀ q ∈ plan.files, p ≠ q →
      (landing dir (shownPath plan.workspace p) = landing dir (shownPath plan.workspace q) ↔
        ∃ name, Bare plan.workspace p name ∧ Bare plan.workspace q name)) ∧
    (∀ before path after, plan.files = before ++ path :: after →
      ∀ p m, transformFile t.sources plan.options path = .ok (p, m) →
      (∀ q ∈ after, (process wording t.sources plan q).code ≠ none →
        landing dir (shownPath plan.workspace q) ≠ landing dir (shownPath plan.workspace path)) →
      FileTree.entry? (runWith wording t here a).tree (landing dir (shownPath plan.workspace path))
        = some (.file (.text m.code))) := by
  have planned := completes.planned
  refine ⟨fun p memP q memQ insideP insideQ ne same => ne ?_, fun p memP q memQ ne => ?_,
    fun before path after files p m loaded last => ?_⟩
  · exact eq_of_landing_eq absolute planned level dir memP memQ insideP insideQ same
  · exact landing_eq_iff_bare absolute planned level dir memP memQ ne
  · exact entry?_landing_of_last completes out files
      (by rw [process_of_transformFile wording loaded]) last

/-- Two modules of the same name in different directories, and a workspace next to these. -/
def siblingTree : FileTree := .ofList [
  ("/x/A.ts", .file (.text "export const x = 1\n")),
  ("/y/A.ts", .file (.text "export const y = 2\n")), ("/w", .directory)]

/-- What a run from the root over the two modules is asked for. -/
def siblingArguments : Arguments :=
  { Arguments.standard with workspace := "w", outDir := some "out", paths := ["x", "y"] }

/-- The run over the two modules completes. -/
theorem exists_completes_sibling :
    ∃ plan, Completes .standard siblingTree "/" siblingArguments plan ∧
      plan.files = ["/x/A.ts", "/y/A.ts"] ∧ plan.workspace = "/w" ∧
      plan.outDir = some "/w/out" ∧ plan.Level ∧
      ∃ p m, transformFile siblingTree.sources plan.options "/y/A.ts" = .ok (p, m) ∧
        m.code = "export const y = 2\n" := by
  have completes : completesWith .standard siblingTree "/" siblingArguments (fun plan =>
      decide (plan.files = ["/x/A.ts", "/y/A.ts"] ∧ plan.workspace = "/w" ∧
        plan.outDir = some "/w/out" ∧ plan.Level ∧
        (transformFile siblingTree.sources plan.options "/y/A.ts").toOption.map (·.2.code)
          = some "export const y = 2\n")) = true := by
    decide +kernel
  obtain ⟨plan, completes, facts⟩ := exists_of_completesWith completes
  obtain ⟨files, workspace, out, level, made⟩ := of_decide_eq_true facts
  refine ⟨plan, completes, files, workspace, out, level, ?_⟩
  cases transformed : transformFile siblingTree.sources plan.options "/y/A.ts" with
  | error e =>
    rw [transformed] at made
    cases made
  | ok result =>
    rw [transformed] at made
    exact ⟨result.1, result.2, rfl, Option.some.inj made⟩

/-- The two modules share a destination because both are shown by their bare name, and the code of
the second one is what the file there has. -/
theorem destinations_of_completes_sibling :
    ∃ plan, Path.isAbsolute "/" = true ∧ Completes .standard siblingTree "/" siblingArguments plan ∧
      plan.Level ∧ plan.outDir = some "/w/out" ∧
      (landing "/w/out" (shownPath plan.workspace "/x/A.ts")
          = landing "/w/out" (shownPath plan.workspace "/y/A.ts") ↔
        ∃ name, Bare plan.workspace "/x/A.ts" name ∧ Bare plan.workspace "/y/A.ts" name) ∧
      FileTree.entry? (runWith .standard siblingTree "/" siblingArguments).tree
          (landing "/w/out" (shownPath plan.workspace "/y/A.ts"))
        = some (.file (.text "export const y = 2\n")) := by
  obtain ⟨plan, completes, files, workspace, out, level, p, m, loaded, code⟩ :=
    exists_completes_sibling
  have absolute : Path.isAbsolute "/" = true := rfl
  obtain ⟨-, shared, own⟩ := destinations_of_completes absolute completes level out
  have ends := own ["/x/A.ts"] "/y/A.ts" [] files p m loaded
    fun q mem => absurd mem List.not_mem_nil
  rw [code] at ends
  exact ⟨plan, absolute, completes, level, out, shared _ (by simp [files]) _ (by simp [files])
    (by decide), ends⟩

/-- The code of the first of two modules is lost: after a run that reports two modules and no
problem, the file that is for both has the code of the other one. -/
theorem sibling_modules_share_destination :
    let outcome := run .standard siblingTree "/" ["--workspace", "w", "--out-dir", "out", "x", "y"]
    outcome.exitCode = 0 ∧ outcome.printed = (Summary.mk 2 0 0 0).text ++ "\n" ∧
      landing "/w/out" (shownPath "/w" "/x/A.ts") = ["w", "out", "A.ts"] ∧
      landing "/w/out" (shownPath "/w" "/y/A.ts") = ["w", "out", "A.ts"] ∧
      outcome.tree.entry? ["w", "out", "A.ts"] = some (.file (.text "export const y = 2\n")) := by
  decide +kernel

end TypedProps.Command
