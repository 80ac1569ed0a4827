import TypedProps.Proofs.FileTree.Entries
import TypedProps.Proofs.Paths.Steps
import TypedProps.Sources

/-!
# `TypedProps.Proofs.Paths.NormalForm`: paths in normal form and the files under them

A path is normal if normalizing leaves it as it is. The text of names along which one can go is
normal (`normalize_toPath`), and so is every path that normalizing returns. A specifier is resolved
by putting an extension or an index file behind a normal path; what this gives is normal again
(`isNormal_of_mem_candidates`), also where the path is the root or has no names at all, and where it
ends in the extension that is replaced.

Files are kept under normal paths, one for each (`Sources.Normalized`). A collection that is made by
inserting files is such a one (`Sources.normalized_ofList`), and what a specifier is resolved to is
one of its paths (`Specifier.of_resolve?`).
-/

set_option autoImplicit false

namespace TypedProps

namespace Path

/-- A path that normalizing leaves as it is. -/
def IsNormal (path : String) : Prop := normalize path = path

instance (path : String) : Decidable (IsNormal path) := inferInstanceAs (Decidable (_ = _))

/-- A relative path of names does not begin at the root. -/
theorem isAbsolute_intercalate {names : List String} (areNames : ∀ name ∈ names, IsName name) :
    isAbsolute ("/".intercalate names) = false := by
  cases names with
  | nil => rfl
  | cons name rest =>
    -- The first name is not empty and begins with no slash.
    have isName := areNames name List.mem_cons_self
    have nonempty : name.toList ≠ [] := by
      intro empty
      have : name = "" := String.toList_eq_nil_iff.mp empty
      rw [this] at isName
      exact absurd isName (by decide)
    obtain ⟨c, cs, eq⟩ := List.exists_cons_of_ne_nil nonempty
    have noSlash : c ≠ '/' := by
      intro slash
      exact isName.2 (by rw [eq, slash]; exact List.mem_cons_self)
    have front : ∃ more, ("/".intercalate (name :: rest)).toList = name.toList ++ more := by
      cases rest with
      | nil => exact ⟨[], by simp⟩
      | cons second others =>
        rw [String.intercalate_cons_cons, String.toList_append, String.toList_append,
          List.append_assoc]
        exact ⟨_, rfl⟩
    obtain ⟨more, front⟩ := front
    unfold isAbsolute
    rw [front, eq]
    simpa using noSlash

/-- The normal form of the text of a normal form is that normal form. -/
theorem ofPath_toPath {n : Normal} (areNames : ∀ name ∈ n.names, IsName name) :
    Normal.ofPath n.toPath = n := by
  have absolute : isAbsolute n.toPath = n.absolute := by
    unfold Normal.toPath
    cases n.absolute with
    | true => simp [isAbsolute, String.toList_append]
    | false =>
      show isAbsolute ("" ++ "/".intercalate n.names) = false
      rw [String.empty_append, isAbsolute_intercalate areNames]
  have along : steps n.toPath = n.names.map .name := by
    unfold Normal.toPath
    split
    · rw [steps_slash_append, steps_intercalate areNames]
    · rw [String.empty_append, steps_intercalate areNames]
  have names : (Normal.ofPath n.toPath).names = n.names := by
    rw [names_ofPath, along, foldl_step_map_name, List.nil_append]
  show Normal.mk (isAbsolute n.toPath) (Normal.ofPath n.toPath).names = n
  rw [absolute, names]

/-- The text of names is normal. -/
theorem normalize_toPath {n : Normal} (areNames : ∀ name ∈ n.names, IsName name) :
    IsNormal n.toPath := by
  show (Normal.ofPath n.toPath).toPath = n.toPath
  rw [ofPath_toPath areNames]

/-- The text of names with another one behind them is normal. -/
theorem isNormal_toPath_concat (absolute : Bool) {front : List String} {last : String}
    (areNames : ∀ name ∈ front, IsName name) (named : IsName last) :
    IsNormal (Normal.mk absolute (front ++ [last])).toPath :=
  normalize_toPath (List.forall_mem_append.mpr ⟨areNames, List.forall_mem_singleton.mpr named⟩)

/-- Normalizing gives a normal path. -/
theorem isNormal_normalize (path : String) : IsNormal (normalize path) :=
  normalize_toPath fun _ mem => isName_of_mem_names mem

/-- A path with a last name is text with the name behind it. This text is empty or ends with a
slash. -/
theorem exists_toPath_concat (absolute : Bool) (front : List String) :
    ∃ dir : String, (dir = "" ∨ ∃ above, dir = above ++ "/") ∧
      ∀ last, (Normal.mk absolute (front ++ [last])).toPath = dir ++ last := by
  let start := if absolute then "/" else ""
  by_cases none : front = []
  · refine ⟨start, ?_, fun last => by simp [Normal.toPath, none, start]⟩
    cases absolute with
    | false => exact Or.inl rfl
    | true => exact Or.inr ⟨"", rfl⟩
  · refine ⟨start ++ "/".intercalate front ++ "/", Or.inr ⟨_, rfl⟩, fun last => ?_⟩
    show start ++ "/".intercalate (front ++ [last]) = _
    rw [String.intercalate_append_of_ne_nil none (by simp)]
    simp [String.append_assoc]

/-- What ends a text without slashes in it ends the last name of the text. -/
theorem suffix_of_suffix_append {ending dir last : List Char} (noSlash : '/' ∉ ending)
    (ends : dir = [] ∨ ∃ above, dir = above ++ ['/']) (suffix : ending <:+ dir ++ last) :
    ending <:+ last := by
  obtain ⟨before, eq⟩ := suffix
  rcases List.append_eq_append_iff.mp eq with ⟨more, dirEq, endingEq⟩ | ⟨more, -, lastEq⟩
  · -- Whatever the ending takes from the text in front holds the slash there.
    rcases List.eq_nil_or_concat more with rfl | ⟨most, c, rfl⟩
    · exact ⟨[], by simpa using endingEq⟩
    · rcases ends with rfl | ⟨above, rfl⟩
      · simp at dirEq
      · have slash : '/' = c := by
          have := congrArg List.getLast? dirEq
          simpa using this
        exact absurd (by rw [endingEq, slash]; simp) noSlash
  · exact ⟨more, lastEq.symm⟩

/-- Only dots and nothing are no names, so longer text without slashes is one. -/
theorem isName_of_length {name : String} (noSlash : '/' ∉ name.toList)
    (long : 2 < name.toList.length) : IsName name := by
  have ne (short : String) (le : short.toList.length ≤ 2) : name ≠ short := by
    rintro rfl
    omega
  refine ⟨?_, noSlash⟩
  simp [Component.ofSegment?, ne "" (by decide), ne "." (by decide), ne ".." (by decide)]

/-- A name with another ending behind it, or in place of its own, is a name. -/
theorem isName_append {name ending : String} (noSlash : '/' ∉ name.toList)
    (endingNoSlash : '/' ∉ ending.toList) (long : 2 < ending.toList.length) :
    IsName (name ++ ending) := by
  refine isName_of_length ?_ ?_
  · simp [String.toList_append, noSlash, endingNoSlash]
  · simp only [String.toList_append, List.length_append]
    omega

end Path

namespace Specifier

open TypedProps.Path

/-- An extension that a specifier may leave out. -/
theorem of_mem_impliedExtensions {extension : String} (mem : extension ∈ impliedExtensions) :
    '/' ∉ extension.toList ∧ 2 < extension.toList.length := by
  simp only [impliedExtensions, List.mem_cons, List.not_mem_nil, or_false] at mem
  rcases mem with rfl | rfl | rfl <;> decide

/-- A normal path with an extension behind it is normal. -/
theorem isNormal_append {n : Path.Normal} (areNames : ∀ name ∈ n.names, IsName name)
    {extension : String} (mem : extension ∈ impliedExtensions) :
    IsNormal (n.toPath ++ extension) := by
  obtain ⟨noSlash, long⟩ := of_mem_impliedExtensions mem
  obtain ⟨absolute, names⟩ := n
  rcases List.eq_nil_or_concat names with rfl | ⟨front, last, rfl⟩
  · -- Behind the root, and behind nothing, the extension is a name.
    have named : IsName extension := isName_of_length noSlash long
    have whole : (Path.Normal.mk absolute []).toPath ++ extension
        = (Path.Normal.mk absolute [extension]).toPath := by
      simp [Path.Normal.toPath]
    rw [whole]
    exact normalize_toPath (by simpa using named)
  · obtain ⟨dir, -, eq⟩ := exists_toPath_concat absolute front
    have named : IsName (last ++ extension) :=
      isName_append (areNames last (by simp)).2 noSlash long
    have whole : (Path.Normal.mk absolute (front ++ [last])).toPath ++ extension
        = (Path.Normal.mk absolute (front ++ [last ++ extension])).toPath := by
      rw [eq, eq, String.append_assoc]
    simp only [List.concat_eq_append] at areNames ⊢
    rw [whole]
    exact isNormal_toPath_concat absolute (List.forall_mem_append.mp areNames).1 named

/-- Without the last three characters, a path with the extension of an output ends in the stem. -/
theorem ofList_take_stem (dir : String) (stem : List Char) :
    String.ofList ((dir ++ (String.ofList stem ++ ".js")).toList.take
      ((dir ++ (String.ofList stem ++ ".js")).length - 3)) = dir ++ String.ofList stem := by
  have split : (dir ++ String.ofList stem ++ ".js").toList
      = (dir ++ String.ofList stem).toList ++ ['.', 'j', 's'] := String.toList_append ..
  apply String.toList_inj.mp
  rw [String.toList_ofList, ← String.append_assoc, ← String.length_toList, split,
    List.length_append]
  show List.take (_ + 3 - 3) _ = _
  rw [Nat.add_sub_cancel, List.take_left]

/-- A normal path whose extension is replaced is normal. -/
theorem isNormal_replace {n : Path.Normal} (areNames : ∀ name ∈ n.names, IsName name)
    (ends : hasEnd ".js" n.toPath = true) {extension : String}
    (mem : extension ∈ impliedExtensions) :
    IsNormal (String.ofList (n.toPath.toList.take (n.toPath.length - 3)) ++ extension) := by
  obtain ⟨noSlash, long⟩ := of_mem_impliedExtensions mem
  have suffix : ".js".toList <:+ n.toPath.toList := by simpa [hasEnd] using ends
  obtain ⟨absolute, names⟩ := n
  rcases List.eq_nil_or_concat names with rfl | ⟨front, last, rfl⟩
  · -- The root has no extension.
    cases absolute <;> exact absurd suffix (by decide)
  · simp only [List.concat_eq_append] at areNames suffix ⊢
    obtain ⟨dir, dirEnds, eq⟩ := exists_toPath_concat absolute front
    have inLast : ".js".toList <:+ last.toList := by
      refine suffix_of_suffix_append (by decide) ?_ (by rwa [eq, String.toList_append] at suffix)
      rcases dirEnds with rfl | ⟨above, rfl⟩
      · exact Or.inl rfl
      · exact Or.inr ⟨above.toList, by simp [String.toList_append]⟩
    obtain ⟨stem, lastEq⟩ := inLast
    obtain rfl : last = String.ofList stem ++ ".js" := by
      apply String.toList_inj.mp
      rw [String.toList_append, String.toList_ofList, lastEq]
    -- The stem is part of a name, and a name has no slash.
    have noSlashStem : '/' ∉ stem := by
      have := (areNames _ (List.mem_append_right _ List.mem_cons_self)).2
      simp only [String.toList_append, String.toList_ofList, List.mem_append, not_or] at this
      exact this.1
    have whole : dir ++ String.ofList stem ++ extension
        = (Path.Normal.mk absolute (front ++ [String.ofList stem ++ extension])).toPath := by
      rw [eq, String.append_assoc]
    rw [eq, ofList_take_stem, whole]
    have renamed : IsName (String.ofList stem ++ extension) :=
      isName_append (by simpa using noSlashStem) noSlash long
    exact isNormal_toPath_concat absolute (List.forall_mem_append.mp areNames).1 renamed

/-- Text with a name at its end is not empty and has no slash at its end. -/
theorem not_hasEnd_append (dir : String) {last : String} (named : IsName last) :
    (dir ++ last).isEmpty = false ∧ hasEnd "/" (dir ++ last) = false := by
  have nonempty : last.toList ≠ [] := by
    intro empty
    rw [String.toList_eq_nil_iff.mp empty] at named
    exact absurd named (by decide)
  constructor
  · rw [Bool.eq_false_iff]
    intro empty
    have := congrArg String.toList (String.isEmpty_iff.mp empty)
    simp [String.toList_append, nonempty] at this
  · -- A slash at the end would be in the name.
    rw [hasEnd, Bool.eq_false_iff]
    intro ends
    have suffix : ['/'] <:+ dir.toList ++ last.toList := by
      simpa [String.toList_append] using ends
    obtain ⟨before, both⟩ := suffix
    have isLast := congrArg List.getLast? both
    rw [List.getLast?_append_of_ne_nil _ nonempty, List.getLast?_concat] at isLast
    exact named.2 (List.mem_of_getLast? isLast.symm)

/-- Joining a name to a normal path puts it behind the names of the path. -/
theorem join_toPath (absolute : Bool) {names : List String} (areNames : ∀ name ∈ names, IsName name)
    {name : String} (named : IsName name) :
    join (Path.Normal.mk absolute names).toPath name
      = (Path.Normal.mk absolute (names ++ [name])).toPath := by
  have relative : isAbsolute name = false := named.isAbsolute_eq_false
  rcases List.eq_nil_or_concat names with rfl | ⟨front, last, rfl⟩
  · -- Behind the root there is a slash already, and behind nothing none is put.
    cases absolute <;> simp [Path.Normal.toPath, join, relative, hasEnd]
  · simp only [List.concat_eq_append] at areNames ⊢
    obtain ⟨dir, -, eq⟩ := exists_toPath_concat absolute front
    obtain ⟨notEmpty, noSlash⟩ := not_hasEnd_append dir (areNames last (by simp))
    rw [eq, join, relative, notEmpty, noSlash]
    show dir ++ last ++ "/" ++ name = _
    have joined : "/".intercalate (front ++ [last] ++ [name])
        = "/".intercalate (front ++ [last]) ++ "/" ++ name := by
      rw [String.intercalate_append_of_ne_nil (by simp) (by simp), String.intercalate_singleton]
    rw [← eq, Path.Normal.toPath, Path.Normal.toPath, joined]
    simp only [String.append_assoc]

/-- A name behind a normal path gives a normal path. -/
theorem isNormal_join {n : Path.Normal} (areNames : ∀ name ∈ n.names, IsName name) {name : String}
    (named : IsName name) : IsNormal (join n.toPath name) := by
  obtain ⟨absolute, names⟩ := n
  rw [join_toPath absolute areNames named]
  exact isNormal_toPath_concat absolute areNames named

/-- All paths that a specifier may stand for are normal. -/
theorem isNormal_of_mem_candidates {base path : String} (normal : IsNormal base)
    (mem : path ∈ candidates base) : IsNormal path := by
  have areNames : ∀ name ∈ (Path.Normal.ofPath base).names, IsName name :=
    fun _ mem => isName_of_mem_names mem
  have text : (Path.Normal.ofPath base).toPath = base := normal
  have replaced (extension : String) (isExtension : extension ∈ impliedExtensions)
      (ends : hasEnd ".js" base = true) :
      IsNormal (String.ofList (base.toList.take (base.length - 3)) ++ extension) := by
    have := isNormal_replace areNames (by rwa [text]) isExtension
    rwa [text] at this
  -- The four kinds: the path itself, the source of an output, an extension, an index file.
  unfold candidates at mem
  simp only [List.mem_append] at mem
  rcases mem with ((itself | ofOutput) | implied) | index
  · split at itself
    · rwa [List.mem_singleton.mp itself]
    · cases itself
  · split at ofOutput
    · rename_i ends
      simp only [List.mem_cons, List.not_mem_nil, or_false] at ofOutput
      rcases ofOutput with rfl | rfl
      · exact replaced ".ts" (by decide) ends
      · exact replaced ".tsx" (by decide) ends
    · cases ofOutput
  · obtain ⟨extension, isExtension, rfl⟩ := List.mem_map.mp implied
    have := isNormal_append areNames isExtension
    rwa [text] at this
  · obtain ⟨extension, isExtension, rfl⟩ := List.mem_map.mp index
    obtain ⟨noSlash, long⟩ := of_mem_impliedExtensions isExtension
    have index : IsName ("index" ++ extension) := isName_append (by decide) noSlash long
    have := isNormal_join areNames index
    rwa [text] at this

/-- The place that a specifier points at is normal. -/
theorem isNormal_base (importer specifier : String) : IsNormal (base importer specifier) := by
  unfold base
  dsimp only
  split
  · exact isNormal_normalize _
  · exact isNormal_normalize _

end Specifier

namespace Sources

/-- Files are kept under normal paths, and no two under the same one. -/
structure Normalized (s : Sources) : Prop where
  normal : ∀ path ∈ s.paths, Path.IsNormal path
  nodup : s.paths.Nodup

variable {s : Sources}

/-- Inserting a file adds its normal path, unless it is there. -/
theorem Normalized.insert (normalized : s.Normalized) (path : String) (content : Content) :
    (s.insert path content).Normalized := by
  have paths : (s.insert path content).paths
      = (Keyed.put (Path.normalize path) content s.entries).map (·.1) := rfl
  -- A known path keeps its place among the paths, a new one goes behind all of them.
  by_cases known : Path.normalize path ∈ s.paths
  · have same : (s.insert path content).paths = s.paths := by
      rw [paths, Keyed.map_fst_put_of_mem known]
      rfl
    exact ⟨same ▸ normalized.normal, same ▸ normalized.nodup⟩
  · have more : (s.insert path content).paths = s.paths ++ [Path.normalize path] := by
      rw [paths, Keyed.put_of_not_mem known, List.map_append]
      rfl
    constructor
    · intro other mem
      rw [more] at mem
      rcases List.mem_append.mp mem with mem | mem
      · exact normalized.normal other mem
      · rw [List.mem_singleton.mp mem]
        exact Path.isNormal_normalize path
    · rw [more, List.nodup_append]
      refine ⟨normalized.nodup, by simp, ?_⟩
      intro a inside b last
      rw [List.mem_singleton.mp last]
      rintro rfl
      exact known inside

/-- Files that are inserted one after the other are kept so. -/
theorem normalized_ofList (files : List (String × Content)) : (ofList files).Normalized := by
  have along (s : Sources) (normalized : s.Normalized) :
      (files.foldl (fun s file => s.insert file.1 file.2) s).Normalized := by
    induction files generalizing s with
    | nil => exact normalized
    | cons file rest ih => exact ih _ (normalized.insert file.1 file.2)
  exact along empty ⟨fun path mem => absurd mem List.not_mem_nil, List.nodup_nil⟩

/-- There is a file under a normal path exactly if the path is one of those of the files. -/
theorem contains_iff {path : String} (normal : Path.IsNormal path) :
    s.contains path = true ↔ path ∈ s.paths := by
  have key : Path.normalize path = path := normal
  rw [contains, file?, key, List.lookup_isSome_iff]
  simp only [beq_iff_eq, paths, List.mem_map]
  constructor
  · rintro ⟨pair, mem, rfl⟩
    exact ⟨pair, mem, rfl⟩
  · rintro ⟨pair, mem, rfl⟩
    exact ⟨pair, mem, rfl⟩

end Sources

/-- A specifier leads to a file, under the normal path of the file. -/
theorem Specifier.of_resolve? {s : Sources} {importer specifier path : String}
    (resolved : resolve? s importer specifier = some path) :
    Path.IsNormal path ∧ path ∈ s.paths := by
  unfold resolve? at resolved
  split at resolved
  · have normal : Path.IsNormal path :=
      isNormal_of_mem_candidates (isNormal_base importer specifier)
        (List.mem_of_find?_eq_some resolved)
    exact ⟨normal, (Sources.contains_iff normal).mp (List.find?_some resolved)⟩
  · cases resolved

end TypedProps
