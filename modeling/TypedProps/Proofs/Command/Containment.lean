import TypedProps.Proofs.Command.Delivery

/-!
# `TypedProps.Proofs.Command.Containment`: where a run writes

A module is written under the path by which it is shown, followed from the output directory. That
path is the part of the module's own path behind the workspace, as it is written, and may go up. So
a file lies in the output directory exactly if the way to it comes back as far as it has gone up
(`writes_inside_iff`). Nothing outside is touched if no path that the run is given goes up. If one
does, a module outside the output directory can be overwritten (`overwrites_module_outside`).
-/

set_option autoImplicit false

namespace TypedProps.Command

open TypedProps.Path (Route)

variable {t : FileTree} {here : String} {a : Arguments}

/-- Each file that a run writes is that of a processed module, at the end of the route by which it
is shown, and it lies in the output directory exactly if this route comes back. No file outside
changes, appears or vanishes if no path that the run is given goes up. -/
theorem writes_inside_iff (wording : Wording) (wf : t.WellFormed)
    (absolute : Path.isAbsolute here = true) {dir : String} (out : a.outDir = some dir) :
    ∃ written, t.Writes written (runWith wording t here a).tree ∧
      (∀ file ∈ written, ∃ plan, (Command.plan t here a).2 = .ok plan ∧ ∃ path ∈ plan.files,
        (process wording t.sources plan path).code = some file.2 ∧
        file.1 = (Route.ofPath (shownPath plan.workspace path)).landing (target here a dir) ∧
        (target here a dir <+: file.1 ↔
          (Route.ofPath (shownPath plan.workspace path)).ComesBack (target here a dir))) ∧
      (Straight here a → ∀ names content, ¬ target here a dir <+: names →
        ( FileTree.entry? (runWith wording t here a).tree names = some (.file content) ↔
          t.entry? names = some (.file content))) := by
  obtain ⟨written, writes, origin⟩ := exists_writes_of_run wording t here a
  -- Each file is written along the route by which its module is shown.
  have each : ∀ file ∈ written, ∃ plan, (Command.plan t here a).2 = .ok plan ∧
      ∃ path ∈ plan.files, (process wording t.sources plan path).code = some file.2 ∧
        file.1 = (Route.ofPath (shownPath plan.workspace path)).landing (target here a dir) := by
    intro file mem
    obtain ⟨plan, dir', planned, out', path, isFile, isCode, eq⟩ := origin file mem
    obtain rfl := Option.some.inj (out'.symm.trans (outDir_of_planned planned out))
    refine ⟨plan, planned, path, isFile, isCode, ?_⟩
    rw [eq, landing_eq _ (isAbsolute_shownPath_of_mem_files absolute planned isFile), target]
  refine ⟨written, writes, fun file mem => ?_, fun straight names content outside => ?_⟩
  · obtain ⟨plan, planned, path, isFile, isCode, eq⟩ := each file mem
    refine ⟨plan, planned, path, isFile, isCode, eq, ?_⟩
    rw [eq]
    exact Route.prefix_landing_iff _ _
  · refine writes.entry?_file_iff fun mem => outside ?_
    obtain ⟨file, inside, rfl⟩ := List.mem_map.mp mem
    obtain ⟨plan, planned, path, isFile, -, eq⟩ := each file inside
    rw [eq, Route.prefix_landing_iff]
    exact Path.comesBack_of_descends (straight.level wf absolute planned path isFile) _

/-- A module next to the working directory, and one of the same name in it. -/
def nestedTree : FileTree := .ofList [
  ("/A.ts", .file (.text "export const outer = 1\n")),
  ("/w/A.ts", .file (.text "export const inner = 2\n"))]

/-- A run over the working directory writes to its output directory alone. -/
theorem writes_inside_iff_nested :
    let a := { Arguments.standard with outDir := some "out" }
    let after := (runWith .standard nestedTree "/w" a).tree
    nestedTree.WellFormed ∧ Path.isAbsolute "/w" = true ∧ a.outDir = some "out" ∧
      Straight "/w" a ∧ target "/w" a "out" = ["w", "out"] ∧
      after.entry? ["w", "out", "A.ts"] = some (.file (.text "export const inner = 2\n")) ∧
      ∀ names content, ¬ ["w", "out"] <+: names →
        (after.entry? names = some (.file content) ↔
          nestedTree.entry? names = some (.file content)) := by
  intro a after
  have wf : nestedTree.WellFormed := by decide +kernel
  have straight : Straight "/w" a := by decide +kernel
  have there : target "/w" a "out" = ["w", "out"] := by decide +kernel
  have absolute : Path.isAbsolute "/w" = true := rfl
  have out : a.outDir = some "out" := rfl
  obtain ⟨-, -, -, outside⟩ := writes_inside_iff .standard wf absolute out
  refine ⟨wf, absolute, out, straight, there, by decide +kernel, fun names content away => ?_⟩
  exact outside straight names content (by rwa [there])

/-- A run from the working directory that is given the module next to it overwrites the one in it,
which lies outside the output directory. -/
theorem overwrites_module_outside :
    let outcome := run .standard nestedTree "/w" ["--out-dir", "out", "../A.ts"]
    nestedTree.WellFormed ∧ outcome.exitCode = 0 ∧
      nestedTree.entry? ["w", "A.ts"] = some (.file (.text "export const inner = 2\n")) ∧
      outcome.tree.entry? ["w", "A.ts"] = some (.file (.text "export const outer = 1\n")) ∧
      ¬ (Path.Normal.ofPath (Path.join (Path.join "/w" ".") "out")).names <+: ["w", "A.ts"] := by
  decide +kernel

end TypedProps.Command
