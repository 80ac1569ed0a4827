import Mathlib.Data.List.DropRight
import TypedProps.Path

/-!
# `TypedProps.Proofs.Paths.Steps`: the steps of a path

A path is a sequence of steps (`Path.steps`): names and ways up. What else is written in it, empty
segments and dots, leads nowhere. Joining paths joins their steps (`steps_join`), and a path behind a
directory has the steps that are left of it (`steps_of_stripDirectory?`). So what is done with paths
as text is understood as work on lists of steps.

A path that is followed from the root leads to names (`names_ofPath`). A `Route` says what steps do
wherever they begin: they go up by some levels and from there down along names (`foldl_step_eq`).
-/

set_option autoImplicit false

namespace TypedProps.Path

/-- The steps of a path, in order. -/
def steps (path : String) : List Component := (segments path).filterMap Component.ofSegment?

/-- A path never goes up. -/
def Descends (path : String) : Prop := .up ∉ steps path

instance (path : String) : Decidable (Descends path) := inferInstanceAs (Decidable (_ ∉ _))

/-- Text that is a name between slashes. -/
def IsName (name : String) : Prop :=
  Component.ofSegment? name = some (.name name) ∧ '/' ∉ name.toList

instance (name : String) : Decidable (IsName name) := inferInstanceAs (Decidable (_ ∧ _))

/-! ### Segments -/

/-- Cutting text at slashes is splitting it. -/
theorem splitSlash_eq_splitOn (cs : List Char) : splitSlash cs = cs.splitOn '/' := by
  induction cs with
  | nil => rfl
  | cons c rest ih =>
    rw [splitSlash, List.splitOn_cons_eq_if_modifyHead, ih]
    split
    · rfl
    · -- A list that is split has a first part, which the character joins.
      obtain ⟨first, others, eq⟩ := List.exists_cons_of_ne_nil (List.splitOn_ne_nil '/' rest)
      rw [eq]
      rfl

/-- A slash between two texts separates their segments. -/
theorem segments_append_slash (a b : String) :
    segments (a ++ "/" ++ b) = segments a ++ segments b := by
  have slash : (a ++ "/" ++ b).toList = a.toList ++ '/' :: b.toList := by
    simp [String.toList_append]
  unfold segments
  rw [slash, splitSlash_eq_splitOn, splitSlash_eq_splitOn, splitSlash_eq_splitOn,
    List.splitOn_append_cons_self, List.map_append]

/-- There are no slashes in a segment. -/
theorem slash_not_mem_of_mem_segments {path segment : String} (mem : segment ∈ segments path) :
    '/' ∉ segment.toList := by
  have no_slash (cs : List Char) : ∀ part ∈ splitSlash cs, '/' ∉ part := by
    induction cs with
    | nil => simp [splitSlash]
    | cons c rest ih =>
      rw [splitSlash]
      split
      · simpa using ih
      · rename_i other
        have ne : '/' ≠ c := fun eq => other (by rw [← eq]; rfl)
        split
        · simpa using ne
        · rename_i first others eq
          rw [eq] at ih
          simpa [ne] using ih
  obtain ⟨part, inside, rfl⟩ := List.mem_map.mp mem
  rw [String.toList_ofList]
  exact no_slash path.toList part inside

/-- Names with slashes between them have these names as segments. -/
theorem segments_intercalate {names : List String} (ne : names ≠ [])
    (whole : ∀ name ∈ names, '/' ∉ name.toList) : segments ("/".intercalate names) = names := by
  have noSlash : ∀ part ∈ names.map String.toList, '/' ∉ part := by
    intro part mem
    obtain ⟨name, inside, rfl⟩ := List.mem_map.mp mem
    exact whole name inside
  have slash : "/".toList = ['/'] := rfl
  unfold segments
  rw [splitSlash_eq_splitOn, String.toList_intercalate, slash,
    List.splitOn_intercalate '/' noSlash (by simpa using ne), List.map_map]
  simp [Function.comp_def]

/-- Only empty text and a dot are no steps. -/
theorem ofSegment?_eq_none_iff {segment : String} :
    Component.ofSegment? segment = none ↔ segment = "" ∨ segment = "." := by
  unfold Component.ofSegment?
  split
  · rename_i blank
    simpa using blank
  · rename_i blank
    split <;> simpa using blank

/-- A segment that is a name is its own name. -/
theorem eq_of_ofSegment?_eq_name {segment name : String}
    (h : Component.ofSegment? segment = some (.name name)) : segment = name := by
  unfold Component.ofSegment? at h
  split at h
  · cases h
  · split at h
    · cases h
    · exact Component.name.inj (Option.some.inj h)

/-- A step is a way up, or a name. -/
theorem mem_steps_cases {path : String} {c : Component} (mem : c ∈ steps path) :
    c = .up ∨ ∃ name, c = .name name ∧ IsName name := by
  obtain ⟨segment, inside, eq⟩ := List.mem_filterMap.mp mem
  have noSlash := slash_not_mem_of_mem_segments inside
  cases c with
  | up => exact Or.inl rfl
  | name name =>
    obtain rfl := eq_of_ofSegment?_eq_name eq
    exact Or.inr ⟨_, rfl, eq, noSlash⟩
  | root =>
    unfold Component.ofSegment? at eq
    split at eq <;> [cases eq; split at eq <;> cases eq]
  | here =>
    unfold Component.ofSegment? at eq
    split at eq <;> [cases eq; split at eq <;> cases eq]

/-- What never goes up goes along names. -/
theorem steps_eq_map_of_descends {path : String} (descends : Descends path) :
    ∃ names : List String, steps path = names.map .name ∧ ∀ name ∈ names, IsName name := by
  have along (list : List Component) (named : ∀ c ∈ list, ∃ name, c = .name name ∧ IsName name) :
      ∃ names : List String, list = names.map .name ∧ ∀ name ∈ names, IsName name := by
    induction list with
    | nil => exact ⟨[], rfl, by simp⟩
    | cons c rest ih =>
      obtain ⟨name, rfl, isName⟩ := named c List.mem_cons_self
      obtain ⟨names, rfl, areNames⟩ := ih fun c mem => named c (List.mem_cons_of_mem _ mem)
      exact ⟨name :: names, rfl, by simpa [isName] using areNames⟩
  refine along _ fun c mem => ?_
  rcases mem_steps_cases mem with rfl | named
  · exact absurd mem descends
  · exact named

namespace IsName

/-- A name is a step of its own. -/
theorem segments_eq {name : String} (h : IsName name) : segments name = [name] := by
  have := @segments_intercalate [name] (by simp) (by simpa using h.2)
  simpa using this

theorem steps_eq {name : String} (h : IsName name) : steps name = [.name name] := by
  rw [steps, h.segments_eq, List.filterMap_cons, h.1]
  rfl

theorem descends {name : String} (h : IsName name) : Descends name := by
  unfold Descends
  rw [h.steps_eq]
  simp

/-- A name does not begin at the root. -/
theorem isAbsolute_eq_false {name : String} (h : IsName name) : isAbsolute name = false := by
  unfold isAbsolute
  rw [beq_eq_false_iff_ne]
  intro head
  exact h.2 (List.mem_of_head? head)

end IsName

/-! ### Joining -/

/-- Empty text has no steps. -/
@[simp] theorem steps_empty : steps "" = [] := rfl

/-- A path that begins at the root is not empty. -/
theorem ne_empty_of_isAbsolute {path : String} (absolute : isAbsolute path = true) : path ≠ "" := by
  rintro rfl
  cases absolute

/-- Going on from a directory puts the segments of the way behind those of the directory, except for
the empty one behind a slash at its end. -/
theorem segments_join {base path : String} (nonempty : base ≠ "")
    (relative : isAbsolute path = false) :
    ∃ front, (segments base = front ∨ segments base = front ++ [""]) ∧
      segments (join base path) = front ++ segments path := by
  have notEmpty : base.isEmpty = false := by simpa using nonempty
  unfold join
  rw [relative, notEmpty, Bool.false_or, if_neg Bool.false_ne_true]
  split
  · -- The slash that the base ends with is the one between the two.
    rename_i ends
    obtain ⟨front, eq⟩ := List.isSuffixOf_iff_suffix.mp ends
    have base_eq : base = String.ofList front ++ "/" := by
      rw [← String.toList_inj, String.toList_append, String.toList_ofList, eq]
    have whole : base = String.ofList front ++ "/" ++ "" := by rw [base_eq, String.append_empty]
    refine ⟨segments (String.ofList front), Or.inr ?_, by rw [base_eq, segments_append_slash]⟩
    rw [whole, segments_append_slash]
    rfl
  · exact ⟨segments base, Or.inl rfl, segments_append_slash base path⟩

/-- Going on from a directory adds the steps of the way. -/
theorem steps_join (base : String) {path : String} (relative : isAbsolute path = false) :
    steps (join base path) = steps base ++ steps path := by
  by_cases empty : base = ""
  · rw [empty]
    unfold join
    simp
  · obtain ⟨front, before, both⟩ := segments_join empty relative
    rw [steps, both, List.filterMap_append, steps, steps]
    rcases before with eq | eq
    · rw [eq]
    · rw [eq, List.filterMap_append]
      simp [Component.ofSegment?]

/-- What begins at the root stays there. -/
theorem isAbsolute_join {base : String} (absolute : isAbsolute base = true) (path : String) :
    isAbsolute (join base path) = true := by
  have head (more : String) : isAbsolute (base ++ more) = true := by
    unfold isAbsolute at absolute ⊢
    rw [String.toList_append, List.head?_append, beq_iff_eq.mp absolute]
    rfl
  unfold join
  by_cases whole : isAbsolute path = true
  · rw [whole, Bool.true_or, if_pos rfl]
    exact whole
  · have nonempty : base.isEmpty = false := by
      simpa using ne_empty_of_isAbsolute absolute
    rw [Bool.eq_false_iff.mpr whole, nonempty, Bool.false_or, if_neg Bool.false_ne_true]
    split
    · exact head path
    · rw [String.append_assoc]
      exact head _

/-- An absolute path leads to the same place from everywhere. -/
theorem join_of_isAbsolute (base : String) {path : String} (absolute : isAbsolute path = true) :
    join base path = path := by
  unfold join
  rw [absolute, Bool.true_or, if_pos rfl]

/-- Ways that do not go up make one that does not. -/
theorem descends_join {base path : String} (baseDescends : Descends base)
    (descends : Descends path) : Descends (join base path) := by
  cases absolute : isAbsolute path with
  | true => rwa [join_of_isAbsolute base absolute]
  | false =>
    unfold Descends
    rw [steps_join base absolute, List.mem_append]
    exact not_or.mpr ⟨baseDescends, descends⟩

/-- Going on along names adds them to the steps. -/
theorem steps_foldl_join (base : String) {names : List String}
    (areNames : ∀ name ∈ names, IsName name) :
    steps (names.foldl join base) = steps base ++ names.map .name := by
  induction names generalizing base with
  | nil => simp
  | cons name rest ih =>
    have isName := areNames name List.mem_cons_self
    rw [List.foldl_cons, ih _ fun n mem => areNames n (List.mem_cons_of_mem _ mem),
      steps_join base isName.isAbsolute_eq_false, isName.steps_eq, List.append_assoc]
    rfl

theorem isAbsolute_foldl_join {base : String} (absolute : isAbsolute base = true)
    (names : List String) : isAbsolute (names.foldl join base) = true := by
  induction names generalizing base with
  | nil => exact absolute
  | cons name rest ih => exact ih (isAbsolute_join absolute name)

/-! ### Components -/

/-- An absolute path has its steps behind the root. -/
theorem components_of_isAbsolute {path : String} (absolute : isAbsolute path = true) :
    components path = .root :: steps path := by
  unfold components
  dsimp only
  rw [if_pos absolute]
  rfl

/-- One absolute path leads into another exactly if it goes on from its steps. -/
theorem startsWith_iff {path dir : String} (absolute : isAbsolute path = true)
    (dirAbsolute : isAbsolute dir = true) :
    startsWith path dir = true ↔ steps dir <+: steps path := by
  rw [startsWith, components_of_isAbsolute absolute, components_of_isAbsolute dirAbsolute,
    List.isPrefixOf_iff_prefix, List.cons_prefix_cons]
  simp

/-- The file name of an absolute path is its last step. -/
theorem fileName?_eq_some_iff {path name : String} (absolute : isAbsolute path = true) :
    fileName? path = some name ↔ (steps path).getLast? = some (.name name) := by
  unfold fileName?
  rw [components_of_isAbsolute absolute]
  cases steps path with
  | nil => simp
  | cons first rest =>
    rw [List.getLast?_cons_cons]
    split
    · rename_i other eq
      rw [eq]
      simp
    · rename_i other
      constructor
      · intro h
        cases h
      · intro h
        exact absurd h (other name)

/-- A file name is a name. -/
theorem isName_of_fileName? {path name : String} (absolute : isAbsolute path = true)
    (h : fileName? path = some name) : IsName name := by
  have last := (fileName?_eq_some_iff absolute).mp h
  rcases mem_steps_cases (List.mem_of_getLast? last) with up | ⟨name', eq, isName⟩
  · cases up
  · obtain rfl := Component.name.inj eq
    exact isName

/-! ### Stripping a directory -/

/-- Dropping components drops the segments in front that make them up. -/
theorem exists_of_dropComponents {cs : List Component} {all left : List String}
    (h : dropComponents cs all = some left) :
    ∃ front, all = front ++ left ∧ front.filterMap Component.ofSegment? = cs := by
  fun_induction dropComponents cs all with
  | case1 => exact ⟨[], by simpa using h, rfl⟩
  | case2 => cases h
  | case3 c cs segment rest blank ih =>
    obtain ⟨front, rfl, eq⟩ := ih h
    exact ⟨segment :: front, rfl, by rw [List.filterMap_cons, blank]; exact eq⟩
  | case4 c cs segment rest found eq same ih =>
    obtain ⟨front, rfl, eq'⟩ := ih h
    obtain rfl := eq_of_beq same
    exact ⟨segment :: front, rfl, by rw [List.filterMap_cons, eq, eq']⟩
  | case5 => cases h

/-- Components can be dropped if they are the first ones. -/
theorem dropComponents_ne_none {cs : List Component} {all : List String}
    (first : cs <+: all.filterMap Component.ofSegment?) : dropComponents cs all ≠ none := by
  fun_induction dropComponents cs all with
  | case1 => simp
  | case2 => simp at first
  | case3 c cs segment rest blank ih =>
    rw [List.filterMap_cons, blank] at first
    exact ih first
  | case4 c cs segment rest found eq same ih =>
    rw [List.filterMap_cons, eq] at first
    exact ih (List.cons_prefix_cons.mp first).2
  | case5 c cs segment rest found eq other =>
    rw [List.filterMap_cons, eq] at first
    have same := (List.cons_prefix_cons.mp first).1
    exact absurd (beq_iff_eq.mpr same.symm) other

/-- Leaving out segments that are no steps keeps the steps. -/
theorem filterMap_dropWhile {blank : String → Bool}
    (none : ∀ segment, blank segment = true → Component.ofSegment? segment = none)
    (list : List String) :
    (list.dropWhile blank).filterMap Component.ofSegment?
      = list.filterMap Component.ofSegment? := by
  induction list with
  | nil => rfl
  | cons segment rest ih =>
    rw [List.dropWhile_cons]
    split
    · rename_i isBlank
      rw [ih, List.filterMap_cons, none segment isBlank]
    · rfl

/-- Segments that do not begin with a blank one make a relative path with their steps. -/
theorem of_intercalate {blank : String → Bool} {list : List String}
    (blank_iff : ∀ segment, blank segment = true ↔ Component.ofSegment? segment = none)
    (whole : ∀ segment ∈ list, '/' ∉ segment.toList)
    (head : ∀ segment, list.head? = some segment → blank segment = false) :
    isAbsolute ("/".intercalate list) = false ∧
      steps ("/".intercalate list) = list.filterMap Component.ofSegment? := by
  cases list with
  | nil => exact ⟨by rw [String.intercalate_nil]; rfl, by rw [String.intercalate_nil]; rfl⟩
  | cons first rest =>
    refine ⟨?_, by rw [steps, segments_intercalate (by simp) whole]⟩
    -- The path begins with the first character of the first segment, which is no slash.
    have nonblank := head first rfl
    have nonempty : first.toList ≠ [] := by
      intro empty
      have : first = "" := by rw [← String.toList_inj, empty]; rfl
      have : blank first = true := (blank_iff first).mpr (by rw [this]; rfl)
      rw [nonblank] at this
      cases this
    obtain ⟨c, cs, eq⟩ := List.exists_cons_of_ne_nil nonempty
    have noSlash : c ≠ '/' := by
      have := whole first List.mem_cons_self
      rw [eq] at this
      intro slash
      exact this (by rw [slash]; exact List.mem_cons_self)
    have begins : ∃ more, ("/".intercalate (first :: rest)).toList = c :: more := by
      cases rest with
      | nil => exact ⟨cs, by rw [String.intercalate_singleton, eq]⟩
      | cons second rest =>
        rw [String.intercalate_cons_cons, String.toList_append, String.toList_append, eq]
        exact ⟨_, rfl⟩
    obtain ⟨more, begins⟩ := begins
    unfold isAbsolute
    rw [begins, List.head?_cons]
    simpa using noSlash

/-- The part of a path behind a directory is relative, and has the steps that are left. -/
theorem steps_of_stripDirectory? {path dir inside : String} (absolute : isAbsolute path = true)
    (dirAbsolute : isAbsolute dir = true) (h : stripDirectory? path dir = some inside) :
    isAbsolute inside = false ∧ steps path = steps dir ++ steps inside := by
  unfold stripDirectory? at h
  rw [components_of_isAbsolute absolute, components_of_isAbsolute dirAbsolute] at h
  obtain ⟨left, dropped, rfl⟩ := Option.map_eq_some_iff.mp h
  dsimp only at dropped ⊢
  obtain ⟨front, eq, made⟩ := exists_of_dropComponents dropped
  let blank : String → Bool := fun segment => segment == "" || segment == "."
  have blank_iff (segment : String) :
      blank segment = true ↔ Component.ofSegment? segment = none := by
    rw [ofSegment?_eq_none_iff]
    simp [blank]
  -- What is left is trimmed at both ends.
  have trimmed := List.rdropWhile_prefix blank (left.dropWhile blank)
  have whole : ∀ segment ∈ (left.dropWhile blank).rdropWhile blank, '/' ∉ segment.toList := by
    intro segment mem
    have inLeft : segment ∈ left :=
      (List.dropWhile_suffix blank).subset (trimmed.subset mem)
    have inPath : segment ∈ segments path := by
      rw [eq]
      exact List.mem_append_right _ inLeft
    exact slash_not_mem_of_mem_segments inPath
  have head (segment : String)
      (h : ((left.dropWhile blank).rdropWhile blank).head? = some segment) :
      blank segment = false := by
    have first : (left.dropWhile blank).head? = some segment := by
      obtain ⟨more, eq⟩ := trimmed
      rw [← eq, List.head?_append, h]
      rfl
    have nonblank := List.head?_dropWhile_not blank left
    rw [first] at nonblank
    exact nonblank
  obtain ⟨relative, same⟩ := of_intercalate blank_iff whole head
  have kept : ((left.dropWhile blank).rdropWhile blank).filterMap Component.ofSegment?
      = left.filterMap Component.ofSegment? := by
    have none (segment : String) (h : blank segment = true) := (blank_iff segment).mp h
    rw [List.rdropWhile, List.filterMap_reverse, filterMap_dropWhile none, List.filterMap_reverse,
      List.reverse_reverse, filterMap_dropWhile none]
  refine ⟨relative, ?_⟩
  show steps path = steps dir ++ steps ("/".intercalate ((left.dropWhile blank).rdropWhile blank))
  rw [same, kept, ← made, steps, eq, List.filterMap_append]

/-- There is no such part exactly if the path does not lead into the directory. -/
theorem stripDirectory?_eq_none_iff {path dir : String} (absolute : isAbsolute path = true)
    (dirAbsolute : isAbsolute dir = true) :
    stripDirectory? path dir = none ↔ ¬ steps dir <+: steps path := by
  constructor
  · intro missing first
    unfold stripDirectory? at missing
    rw [components_of_isAbsolute absolute, components_of_isAbsolute dirAbsolute] at missing
    exact dropComponents_ne_none first (Option.map_eq_none_iff.mp missing)
  · intro other
    rw [Option.eq_none_iff_forall_ne_some]
    intro inside h
    exact other ⟨_, (steps_of_stripDirectory? absolute dirAbsolute h).2.symm⟩

/-! ### Names from the root -/

/-- A path that is followed from the root leads to the names that its steps leave. -/
theorem names_ofPath (path : String) :
    (Normal.ofPath path).names = (steps path).foldl Normal.step [] := by
  unfold Normal.ofPath components
  dsimp only
  split
  · rfl
  · split <;> rfl

/-- Going on from a directory goes on from its names. -/
theorem names_join (base : String) {path : String} (relative : isAbsolute path = false) :
    (Normal.ofPath (join base path)).names
      = (steps path).foldl Normal.step (Normal.ofPath base).names := by
  rw [names_ofPath, names_ofPath, steps_join base relative, List.foldl_append]

/-- Steps along names add these names. -/
theorem foldl_step_map_name (base names : List String) :
    (names.map Component.name).foldl Normal.step base = base ++ names := by
  induction names generalizing base with
  | nil => simp
  | cons name rest ih => simp [Normal.step, ih]

/-- What never goes up leads along its steps. -/
theorem steps_eq_map_names {path : String} (descends : Descends path) :
    steps path = (Normal.ofPath path).names.map .name := by
  obtain ⟨names, eq, -⟩ := steps_eq_map_of_descends descends
  rw [names_ofPath, eq, foldl_step_map_name, List.nil_append]

theorem name_injective : Function.Injective Component.name := fun _ _ h => Component.name.inj h

/-- One absolute path that never goes up leads into another exactly if its names go on from
there. -/
theorem startsWith_iff_names {path dir : String} (absolute : isAbsolute path = true)
    (dirAbsolute : isAbsolute dir = true) (descends : Descends path)
    (dirDescends : Descends dir) : startsWith path dir = true ↔
      (Normal.ofPath dir).names <+: (Normal.ofPath path).names := by
  rw [startsWith_iff absolute dirAbsolute, steps_eq_map_names descends,
    steps_eq_map_names dirDescends, List.prefix_map_iff_of_injective name_injective]

/-- A path leads along names. -/
theorem isName_of_mem_names {path name : String} (mem : name ∈ (Normal.ofPath path).names) :
    IsName name := by
  -- Steps are taken from names to names: a way up drops one, and only a name adds one.
  have along (list : List Component) (named : ∀ n, .name n ∈ list → IsName n) (base : List String)
      (baseNamed : ∀ n ∈ base, IsName n) : ∀ n ∈ list.foldl Normal.step base, IsName n := by
    induction list generalizing base with
    | nil => exact baseNamed
    | cons c rest ih =>
      refine ih (fun n mem => named n (List.mem_cons_of_mem _ mem)) _ ?_
      cases c with
      | name first =>
        intro n mem
        rcases List.mem_append.mp mem with mem | mem
        · exact baseNamed n mem
        · rw [List.mem_singleton.mp mem]
          exact named first List.mem_cons_self
      | up => exact fun n mem => baseNamed n (List.dropLast_subset base mem)
      | root | here => exact baseNamed
  rw [names_ofPath] at mem
  refine along (steps path) (fun n inside => ?_) [] (by simp) name mem
  rcases mem_steps_cases inside with eq | ⟨n', eq, isName⟩
  · cases eq
  · obtain rfl := Component.name.inj eq
    exact isName

/-- Names with slashes between them lead along these names, also from the root. -/
theorem steps_intercalate {names : List String} (areNames : ∀ name ∈ names, IsName name) :
    steps ("/".intercalate names) = names.map .name := by
  by_cases empty : names = []
  · rw [empty]
    rfl
  · rw [steps, segments_intercalate empty fun name mem => (areNames name mem).2]
    induction names with
    | nil => rfl
    | cons name rest ih =>
      rw [List.filterMap_cons, (areNames name List.mem_cons_self).1, List.map_cons]
      by_cases last : rest = []
      · rw [last]
        rfl
      · exact congrArg _ (ih (fun n mem => areNames n (List.mem_cons_of_mem _ mem)) last)

theorem steps_slash_append (path : String) : steps ("/" ++ path) = steps path := by
  have : "/" ++ path = "" ++ "/" ++ path := by simp
  rw [this, steps, segments_append_slash, List.filterMap_append]
  rfl

/-- A path and its normal form lead to the same names. -/
theorem names_normalize (path : String) :
    (Normal.ofPath (normalize path)).names = (Normal.ofPath path).names := by
  have areNames : ∀ name ∈ (Normal.ofPath path).names, IsName name :=
    fun name mem => isName_of_mem_names mem
  have along : steps (normalize path) = (Normal.ofPath path).names.map .name := by
    unfold normalize Normal.toPath
    split
    · rw [steps_slash_append, steps_intercalate areNames]
    · rw [String.empty_append, steps_intercalate areNames]
  rw [names_ofPath, along, foldl_step_map_name, List.nil_append]

/-- Where steps lead from wherever they begin: up by some levels, and then down along names. -/
structure Route where
  ups : Nat
  names : List String
deriving DecidableEq, Repr

namespace Route

/-- Goes one step further. -/
def step (r : Route) : Component → Route
  | .name name => ⟨r.ups, r.names ++ [name]⟩
  | .up => if r.names.isEmpty then ⟨r.ups + 1, []⟩ else ⟨r.ups, r.names.dropLast⟩
  | .root | .here => r

/-- The route of a path. -/
def ofPath (path : String) : Route := (steps path).foldl step ⟨0, []⟩

/-- Where a route leads from a directory. Above the root there is only the root. -/
def landing (r : Route) (base : List String) : List String :=
  base.take (base.length - r.ups) ++ r.names

/-- One step further on a route is one step further from the directory. -/
theorem landing_step (r : Route) (c : Component) (base : List String) :
    (r.step c).landing base = Normal.step (r.landing base) c := by
  cases c with
  | name name => simp [step, landing, Normal.step]
  | root => rfl
  | here => rfl
  | up =>
    by_cases empty : r.names = []
    · have fewer : base.length - (r.ups + 1) = (base.take (base.length - r.ups)).length - 1 := by
        rw [List.length_take]
        omega
      simp only [step, landing, Normal.step, empty, List.isEmpty_nil, if_true, List.append_nil]
      rw [List.dropLast_eq_take, ← fewer, List.take_take]
      congr 1
      omega
    · simp [step, landing, Normal.step, empty, List.dropLast_append_of_ne_nil]

/-- A route goes back into the directory: as far as it goes up, it comes down by the same names. -/
def ComesBack (r : Route) (base : List String) : Prop :=
  base.drop (base.length - r.ups) <+: r.names

instance (r : Route) (base : List String) : Decidable (r.ComesBack base) :=
  inferInstanceAs (Decidable (_ <+: _))

/-- A route leads into the directory exactly if it comes back. -/
theorem prefix_landing_iff (r : Route) (base : List String) :
    base <+: r.landing base ↔ r.ComesBack base := by
  unfold landing ComesBack
  conv_lhs => lhs; rw [← List.take_append_drop (base.length - r.ups) base]
  rw [List.prefix_append_right_inj]

end Route

/-- Wherever steps begin, they lead along their route. -/
theorem foldl_step_eq (path : String) (base : List String) :
    (steps path).foldl Normal.step base = (Route.ofPath path).landing base := by
  have along (list : List Component) (r : Route) :
      list.foldl Normal.step (r.landing base) = (list.foldl Route.step r).landing base := by
    induction list generalizing r with
    | nil => rfl
    | cons c rest ih => rw [List.foldl_cons, List.foldl_cons, ← r.landing_step c base, ih]
  have start : (⟨0, []⟩ : Route).landing base = base := by simp [Route.landing]
  rw [Route.ofPath, ← along, start]

/-- What never goes up comes back. -/
theorem comesBack_of_descends {path : String} (descends : Descends path) (base : List String) :
    (Route.ofPath path).ComesBack base := by
  obtain ⟨names, eq, -⟩ := steps_eq_map_of_descends descends
  rw [← Route.prefix_landing_iff, ← foldl_step_eq, eq, foldl_step_map_name]
  exact List.prefix_append base names

end TypedProps.Path
