import Mathlib.Data.List.Induction
import TypedProps.Proofs.Paths.Anchoring

/-!
# `TypedProps.Proofs.Paths.Store`: files under the normal forms of their paths

Two spellings of a path are one path for the files of a program if they have the same normal form. A
normal form is written with single slashes between names (`Path.exists_names_normalize`), so it has
no other spelling that is normal, and the places that are tried for a specifier are normal as well.
Inserting a file replaces what is there under the normal form of its path and nothing else
(`Sources.file?_insert`): what is found under a path is what was inserted last under any spelling of
it (`Sources.file?_ofList_eq_some_iff`).
-/

set_option autoImplicit false

namespace TypedProps

namespace Path

/-! ### How a normal form is written -/

/-- A name is not empty, no dots, and has no slash in it. -/
theorem IsName.ne {name : String} (isName : IsName name) :
    name ≠ "" ∧ name ≠ "." ∧ name ≠ ".." ∧ '/' ∉ name.toList := by
  refine ⟨?_, ?_, ?_, isName.2⟩ <;> rintro rfl <;> exact absurd isName.1 (by decide)

/-- The components of a normal form are its names, behind the root if it begins there. -/
theorem components_toPath {n : Normal} (areNames : ∀ name ∈ n.names, IsName name) :
    components n.toPath = (if n.absolute then [.root] else []) ++ n.names.map .name := by
  obtain ⟨absolute, names⟩ := n
  cases absolute with
  | true =>
    have begins : isAbsolute (Normal.mk true names).toPath = true :=
      congrArg Normal.absolute (ofPath_toPath areNames)
    rw [components_of_isAbsolute begins]
    show .root :: steps ("/" ++ "/".intercalate names) = _
    rw [steps_slash_append, steps_intercalate areNames]
    rfl
  | false =>
    show components ("" ++ "/".intercalate names) = names.map .name
    rw [String.empty_append]
    -- The first name, if there is one, is not the dot that would count at the front.
    have noDot : (segments ("/".intercalate names)).head? ≠ some "." := by
      cases names with
      | nil => decide
      | cons name rest =>
        rw [segments_intercalate (by simp) fun other mem => (areNames other mem).2]
        exact fun same => (areNames name List.mem_cons_self).ne.2.1 (Option.some.inj same)
    unfold components
    dsimp only
    rw [isAbsolute_intercalate areNames, if_neg Bool.false_ne_true,
      if_neg (by simpa using noDot)]
    exact steps_intercalate areNames

/-- A normal form is written with slashes between names, and one in front if the path begins at the
root. -/
theorem exists_names_normalize (path : String) : ∃ names : List String,
    normalize path = (if isAbsolute path then "/" else "") ++ "/".intercalate names ∧
      components (normalize path)
        = (if isAbsolute path then [.root] else []) ++ names.map .name ∧
      ∀ name ∈ names, name ≠ "" ∧ name ≠ "." ∧ name ≠ ".." ∧ '/' ∉ name.toList := by
  have areNames : ∀ name ∈ (Normal.ofPath path).names, IsName name :=
    fun _ mem => isName_of_mem_names mem
  exact ⟨(Normal.ofPath path).names, rfl, components_toPath areNames,
    fun name mem => (areNames name mem).ne⟩

end Path

namespace Sources

variable {s : Sources}

/-! ### What is found under a path -/

/-- Inserting a file changes what is found under the spellings of its path. -/
theorem file?_insert (s : Sources) (path p : String) (content : Content) :
    (s.insert path content).file? p
      = if Path.normalize path = Path.normalize p then some content else s.file? p := by
  unfold insert file?
  split
  · rename_i same
    rw [same, Keyed.lookup_put_self]
  · rename_i other
    rw [Keyed.lookup_put_of_ne (Ne.symm other)]

theorem ofList_concat (files : List (String × Content)) (file : String × Content) :
    ofList (files ++ [file]) = (ofList files).insert file.1 file.2 := by
  unfold ofList
  rw [List.foldl_append]
  rfl

/-- What is found under a path is what was inserted last under a spelling of it. -/
theorem file?_ofList (files : List (String × Content)) (p : String) :
    (ofList files).file? p
      = (files.reverse.find? fun file => Path.normalize file.1 == Path.normalize p).map (·.2) := by
  induction files using List.reverseRecOn with
  | nil => rfl
  | append_singleton files file ih =>
    rw [ofList_concat, file?_insert, List.reverse_append, List.reverse_singleton,
      List.singleton_append, List.find?_cons, ih]
    split
    · rename_i same
      rw [beq_iff_eq.mpr same]
      rfl
    · rename_i other
      rw [beq_eq_false_iff_ne.mpr other]

theorem file?_ofList_eq_some_iff {files : List (String × Content)} {p : String}
    {content : Content} :
    (ofList files).file? p = some content ↔ ∃ before path after,
      files = before ++ (path, content) :: after ∧ Path.normalize path = Path.normalize p ∧
      ∀ file ∈ after, Path.normalize file.1 ≠ Path.normalize p := by
  rw [file?_ofList, Option.map_eq_some_iff]
  constructor
  · rintro ⟨⟨path, inserted⟩, found, rfl⟩
    obtain ⟨same, later, earlier, split, others⟩ := List.find?_eq_some_iff_append.mp found
    refine ⟨earlier.reverse, path, later.reverse, ?_, beq_iff_eq.mp same, ?_⟩
    · rw [← List.reverse_reverse files, split]
      simp
    · intro file mem
      simpa using others file (List.mem_reverse.mp mem)
  · rintro ⟨before, path, after, rfl, same, others⟩
    refine ⟨(path, content), List.find?_eq_some_iff_append.mpr ⟨beq_iff_eq.mpr same,
      after.reverse, before.reverse, by simp, ?_⟩, rfl⟩
    intro file mem
    simpa using others file (List.mem_reverse.mp mem)

/-- There is a file under a path if one was inserted under a spelling of it. -/
theorem contains_ofList_iff {files : List (String × Content)} {p : String} :
    (ofList files).contains p = true ↔
      ∃ file ∈ files, Path.normalize file.1 = Path.normalize p := by
  rw [contains, file?_ofList, Option.isSome_map, List.find?_isSome]
  simp

theorem read?_eq_some_iff {p text : String} :
    s.read? p = some text ↔ s.file? p = some (.text text) := by
  unfold read?
  cases s.file? p with
  | none => simp
  | some content => cases content <;> simp

end Sources

/-- Normal forms are canonical, and files are kept under them. Normalizing again changes nothing. A
normal form begins at the root exactly if the path does, and is written with single slashes between
names, none of which is empty or made of dots. Every place that is tried for a specifier, and so
every path that it is resolved to, is in normal form. After any insertions, the text under a path is
the one that was inserted last under a path of the same normal form, and there is a file exactly if
one was inserted there. -/
theorem Sources.normal_forms_are_keys :
    (∀ path, Path.normalize (Path.normalize path) = Path.normalize path ∧
      Path.isAbsolute (Path.normalize path) = Path.isAbsolute path ∧
      ∃ names : List String,
        Path.normalize path
          = (if Path.isAbsolute path then "/" else "") ++ "/".intercalate names ∧
        Path.components (Path.normalize path)
          = (if Path.isAbsolute path then [.root] else []) ++ names.map .name ∧
        ∀ name ∈ names, name ≠ "" ∧ name ≠ "." ∧ name ≠ ".." ∧ '/' ∉ name.toList) ∧
    (∀ importer specifier path, path ∈ Specifier.candidates (Specifier.base importer specifier) →
      Path.normalize path = path) ∧
    (∀ sources importer specifier path,
      Specifier.resolve? sources importer specifier = some path → Path.normalize path = path) ∧
    (∀ files p text, (ofList files).read? p = some text ↔ ∃ before path after,
      files = before ++ (path, .text text) :: after ∧ Path.normalize path = Path.normalize p ∧
      ∀ file ∈ after, Path.normalize file.1 ≠ Path.normalize p) ∧
    ∀ files p, (ofList files).contains p = true ↔
      ∃ file ∈ files, Path.normalize file.1 = Path.normalize p := by
  refine ⟨fun path => ⟨Path.isNormal_normalize path, Path.isAbsolute_normalize path,
    Path.exists_names_normalize path⟩, ?_, ?_, ?_, fun files p => contains_ofList_iff⟩
  · exact fun importer specifier path mem =>
      Specifier.isNormal_of_mem_candidates (Specifier.isNormal_base importer specifier) mem
  · exact fun sources importer specifier path resolved => (Specifier.of_resolve? resolved).1
  · intro files p text
    rw [read?_eq_some_iff, file?_ofList_eq_some_iff]

/-- Behind the root and behind no names at all, an extension is a name by itself. -/
example : Specifier.candidates (Specifier.base "/a.ts" "./..")
    = ["/.ts", "/.tsx", "/.d.ts", "/index.ts", "/index.tsx", "/index.d.ts"] := by
  decide

end TypedProps
