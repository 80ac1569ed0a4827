import Mathlib.Data.List.TakeDrop
import TypedProps.Proofs.Paths.NormalForm
import TypedProps.Proofs.Program.Scripts

/-!
# `TypedProps.Proofs.Paths.Anchoring`: normalizing before and after joining

A relative path can be normalized by itself, or behind the directory that it is relative to. Behind
the directory its ways up have something to step back over, by themselves those at its front have
not and are dropped. So the two agree exactly if the path does not go up above its start, is not
relative at all, or is seen from the root, above which nothing is (`normalize_join_normalize_iff`).

A program is loaded from a path that is normalized by itself, and so is the place that a specifier
points at. Both lead to the file that is named under the same condition
(`normalize_before_join_iff`).
-/

set_option autoImplicit false

namespace TypedProps

namespace Path

variable {dir path : String}

/-- A path leads below the directory from which it is seen, as far as it can be told without
looking at the names of the directory. -/
def Anchored (dir path : String) : Prop :=
  isAbsolute path = true ∨ (Route.ofPath path).ups = 0 ∨ (Normal.ofPath dir).names = []

instance (dir path : String) : Decidable (Anchored dir path) :=
  inferInstanceAs (Decidable (_ ∨ _ ∨ _))

/-- The normal form of a path begins at the root exactly if the path does. -/
theorem isAbsolute_normalize (path : String) : isAbsolute (normalize path) = isAbsolute path := by
  have same : Normal.ofPath (normalize path) = Normal.ofPath path :=
    ofPath_toPath fun _ mem => isName_of_mem_names mem
  exact congrArg Normal.absolute same

/-- Two paths have the same normal form exactly if they begin at the same place and lead along the
same names. -/
theorem normalize_eq_iff {a b : String} :
    normalize a = normalize b ↔
      isAbsolute a = isAbsolute b ∧ (Normal.ofPath a).names = (Normal.ofPath b).names := by
  constructor
  · intro same
    rw [← isAbsolute_normalize a, ← names_normalize a, same]
    exact ⟨isAbsolute_normalize b, names_normalize b⟩
  · rintro ⟨absolute, names⟩
    show (Normal.mk (isAbsolute a) (Normal.ofPath a).names).toPath
      = (Normal.mk (isAbsolute b) (Normal.ofPath b).names).toPath
    rw [absolute, names]

/-- A path by itself leads along the names of its route. -/
theorem names_eq_names_route (path : String) :
    (Normal.ofPath path).names = (Route.ofPath path).names := by
  rw [names_ofPath, foldl_step_eq, Route.landing, List.take_nil, List.nil_append]

/-- A normal form never goes up. -/
theorem steps_normalize (path : String) :
    steps (normalize path) = (Route.ofPath path).names.map .name := by
  have areNames : ∀ name ∈ (Normal.ofPath path).names, IsName name :=
    fun _ mem => isName_of_mem_names mem
  rw [← names_eq_names_route]
  unfold normalize Normal.toPath
  split
  · rw [steps_slash_append, steps_intercalate areNames]
  · rw [String.empty_append, steps_intercalate areNames]

/-- Behind a directory, the normal form of a relative path adds the names of the route and takes
nothing away. -/
theorem names_join_normalize (dir : String) (relative : isAbsolute path = false) :
    (Normal.ofPath (join dir (normalize path))).names
      = (Normal.ofPath dir).names ++ (Route.ofPath path).names := by
  rw [names_join dir (by rwa [isAbsolute_normalize]), steps_normalize, foldl_step_map_name]

/-- A route adds its names and takes nothing away exactly if it does not go up, or if there is
nothing to take away. -/
theorem Route.landing_eq_append_iff (r : Route) (base : List String) :
    r.landing base = base ++ r.names ↔ r.ups = 0 ∨ base = [] := by
  have kept : base.take (base.length - r.ups) = base ↔ base.length ≤ base.length - r.ups :=
    List.take_eq_self_iff base
  rw [Route.landing, List.append_cancel_right_eq, kept, ← List.length_eq_zero_iff]
  omega

/-- A path can be normalized before it is joined to a directory exactly if it is anchored there. -/
theorem normalize_join_normalize_iff (absolute : isAbsolute dir = true) :
    normalize (join dir (normalize path)) = normalize (join dir path) ↔ Anchored dir path := by
  unfold Anchored
  rw [normalize_eq_iff, isAbsolute_join absolute, isAbsolute_join absolute]
  cases whole : isAbsolute path with
  | true =>
    rw [join_of_isAbsolute dir whole, join_of_isAbsolute dir (by rwa [isAbsolute_normalize]),
      names_normalize]
    simp
  | false =>
    rw [names_join_normalize dir whole, names_join dir whole, foldl_step_eq, eq_comm (a := _ ++ _),
      Route.landing_eq_append_iff]
    simp

end Path

namespace Specifier

/-- The path that a local specifier names, seen from where the importing module is seen from. -/
def written (importer specifier : String) : String :=
  Path.join (((Path.Normal.ofPath importer).parent?.map Path.Normal.toPath).getD "") specifier

/-- The place that a specifier points at is the path it names, normalized by itself. -/
theorem base_eq (importer specifier : String) :
    base importer specifier = Path.normalize (written importer specifier) := by
  unfold base written
  split
  · rename_i absolute
    rw [Path.join_of_isAbsolute _ absolute]
  · rfl

end Specifier

/-- Seen from a directory, a path that is normalized by itself leads where the path leads exactly if
it is anchored there. So do the entry of a program that is loaded from a path, and the place at
which the files of a specifier are looked for. -/
theorem Path.normalize_before_join_iff {dir : String} (absolute : isAbsolute dir = true) :
    (∀ path, normalize (join dir path) = normalize (join dir (normalize path)) ↔
      Anchored dir path) ∧
    (∀ files path p, Program.load (Sources.ofList files) path = .ok p →
      ∃ m, p.module? 0 = some m ∧ (normalize (join dir path) = normalize (join dir m.path) ↔
        Anchored dir path)) ∧
    (∀ importer specifier,
      normalize (join dir (Specifier.written importer specifier))
          = normalize (join dir (Specifier.base importer specifier)) ↔
        Anchored dir (Specifier.written importer specifier)) := by
  have each (path : String) : normalize (join dir path) = normalize (join dir (normalize path)) ↔
      Anchored dir path := by
    rw [eq_comm, normalize_join_normalize_iff absolute]
  refine ⟨each, fun files path p loaded => ?_, fun importer specifier => ?_⟩
  · obtain ⟨⟨m, first, isEntry⟩, -⟩ :=
      Program.paths_of_load (Sources.normalized_ofList files).nodup loaded
    exact ⟨m, first, by rw [isEntry, each]⟩
  · rw [Specifier.base_eq, each]

/-- Two files, one of them above the directory from which both are named. -/
def climbingFiles : List (String × Content) :=
  [("../a.ts", .text "import { B } from '../b'\n"), ("a.ts", .text "export type A = string\n")]

/-- A path that goes up inside of what it has come down is anchored; the program that is loaded from
it has the file that it names as its entry. -/
theorem Path.normalize_before_join_inside :
    isAbsolute "/w" = true ∧ Anchored "/w" "src/../a.ts" ∧
      normalize (join "/w" "src/../a.ts") = normalize (join "/w" (normalize "src/../a.ts")) ∧
      ∃ p m, Program.load (Sources.ofList climbingFiles) "src/../a.ts" = .ok p ∧
        p.module? 0 = some m ∧
          normalize (join "/w" "src/../a.ts") = normalize (join "/w" m.path) := by
  have absolute : isAbsolute "/w" = true := rfl
  have anchored : Anchored "/w" "src/../a.ts" := by decide +kernel
  have loads : Program.loadsWith (Sources.ofList climbingFiles) "src/../a.ts" (fun _ => true)
      = true := by
    refine Program.loadsWith_of_written (by repeat constructor) ?_
    decide +kernel
  obtain ⟨p, loaded, -⟩ := Program.exists_of_loadsWith loads
  obtain ⟨paths, entries, -⟩ := Path.normalize_before_join_iff absolute
  obtain ⟨m, first, same⟩ := entries climbingFiles "src/../a.ts" p loaded
  exact ⟨absolute, anchored, (paths _).mpr anchored, p, m, loaded, first, same.mpr anchored⟩

/-- A path that begins by going up is not anchored: normalized by itself it names another file, so
of two files the one is read under the path of the other, and what is imported from above is looked
for beside the module. -/
theorem Path.normalize_loses_ways_up :
    normalize (join "/w" "../a.ts") = "/a.ts" ∧
      normalize (join "/w" (normalize "../a.ts")) = "/w/a.ts" ∧
      (Sources.ofList climbingFiles).read? "../a.ts" = some "export type A = string\n" ∧
      normalize (join "/w" (Specifier.written "a.ts" "../b")) = "/b" ∧
      normalize (join "/w" (Specifier.base "a.ts" "../b")) = "/w/b" := by
  decide +kernel

end TypedProps
