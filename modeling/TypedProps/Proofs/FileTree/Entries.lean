import TypedProps.FileTree
import TypedProps.Proofs.Paths.Steps

/-!
# `TypedProps.Proofs.FileTree.Entries`: what stands in a file tree, and where paths lead

A tree is well-formed if what stands somewhere stands in a directory. In such a tree a path that
leads somewhere leads to something that stands there, by way of directories
(`Closed.isSome_of_follow`). A tree keeps another one if the directories of that one are directories
and its files are files in it: paths then lead where they have led (`Keeps.follow_eq_ok`).
-/

set_option autoImplicit false

namespace TypedProps

/-! ### Lists of values under keys -/

namespace Keyed

variable {κ ν β : Type} [BEq κ] [LawfulBEq κ] {key : κ} {value : ν} {pairs : List (κ × ν)}

/-- A new key is put at the end. -/
theorem put_of_not_mem (new : key ∉ pairs.map (·.1)) :
    put key value pairs = pairs ++ [(key, value)] := by
  induction pairs with
  | nil => rfl
  | cons pair rest ih =>
    obtain ⟨k, v⟩ := pair
    have other : (k == key) = false :=
      beq_eq_false_iff_ne.mpr fun eq => new (by rw [← eq]; exact List.mem_cons_self)
    rw [put, other, if_neg Bool.false_ne_true, ih fun mem => new (List.mem_cons_of_mem _ mem)]
    rfl

/-- A key that is there stays in its place. -/
theorem map_fst_put_of_mem (mem : key ∈ pairs.map (·.1)) :
    (put key value pairs).map (·.1) = pairs.map (·.1) := by
  induction pairs with
  | nil => cases mem
  | cons pair rest ih =>
    obtain ⟨k, v⟩ := pair
    rw [put]
    split
    · rfl
    · rename_i other
      rcases List.mem_cons.mp mem with rfl | mem
      · exact absurd (beq_self_eq_true key) other
      · rw [List.map_cons, List.map_cons, ih mem]

/-- What a list shows of its pairs does not change where the new pair and the old one show
nothing. -/
theorem filterMap_put {shows : κ × ν → Option β} (hidden : ∀ v, shows (key, v) = none) :
    (put key value pairs).filterMap shows = pairs.filterMap shows := by
  induction pairs with
  | nil => simp [hidden]
  | cons pair rest ih =>
    obtain ⟨k, v⟩ := pair
    rw [put]
    split
    · rename_i same
      obtain rfl := eq_of_beq same
      rw [List.filterMap_cons, List.filterMap_cons, hidden, hidden]
    · rw [List.filterMap_cons, List.filterMap_cons, ih]

/-- A list under different keys is known by the order of its keys and by what it has under each. -/
theorem eq_of_lookup_eq {a b : List (κ × ν)} (keys : a.map (·.1) = b.map (·.1))
    (nodup : (a.map (·.1)).Nodup) (same : ∀ key ∈ a.map (·.1), a.lookup key = b.lookup key) :
    a = b := by
  induction a generalizing b with
  | nil =>
    cases b with
    | nil => rfl
    | cons pair rest => cases keys
  | cons pair rest ih =>
    cases b with
    | nil => cases keys
    | cons pair' rest' =>
      obtain ⟨k, v⟩ := pair
      obtain ⟨k', v'⟩ := pair'
      rw [List.map_cons, List.map_cons] at keys
      obtain ⟨rfl, others_keys⟩ := List.cons.inj keys
      obtain ⟨fresh, nodup⟩ := List.nodup_cons.mp nodup
      have first := same k List.mem_cons_self
      rw [List.lookup_cons_self, List.lookup_cons_self] at first
      obtain rfl := Option.some.inj first
      have others : ∀ key ∈ rest.map (·.1), rest.lookup key = rest'.lookup key := by
        intro key mem
        have ne : (key == k) = false := beq_eq_false_iff_ne.mpr fun eq => fresh (eq ▸ mem)
        have := same key (List.mem_cons_of_mem _ mem)
        rwa [List.lookup_cons, ne, List.lookup_cons, ne] at this
      rw [ih others_keys nodup others]

/-- A pair is found under its key if no key is there twice. -/
theorem lookup_of_mem (nodup : (pairs.map (·.1)).Nodup) (mem : (key, value) ∈ pairs) :
    pairs.lookup key = some value := by
  induction pairs with
  | nil => cases mem
  | cons pair rest ih =>
    obtain ⟨k, v⟩ := pair
    obtain ⟨fresh, nodup⟩ := List.nodup_cons.mp nodup
    rcases List.mem_cons.mp mem with same | behind
    · cases same
      exact List.lookup_cons_self
    · have other : (key == k) = false := by
        rw [beq_eq_false_iff_ne]
        intro same
        exact fresh (List.mem_map.mpr ⟨(key, value), behind, same⟩)
      rw [List.lookup_cons, other]
      exact ih nodup behind

/-- A key that leads to a value is in the list. -/
theorem mem_of_lookup_ne_none (h : pairs.lookup key ≠ none) : key ∈ pairs.map (·.1) := by
  obtain ⟨pair, mem, same⟩ := List.lookup_isSome_iff.mp (Option.isSome_iff_ne_none.mpr h)
  obtain rfl := eq_of_beq same
  exact List.mem_map_of_mem mem

end Keyed

namespace FileTree

variable {t t' u : FileTree} {names other : List String}

/-! ### Entries -/

/-- The names under which something is listed. -/
def keys (t : FileTree) : List (List String) := t.entries.map (·.1)

/-- A tree as directories and files make one: names are names, each leads to one thing, and what
stands somewhere stands in a directory. -/
structure WellFormed (t : FileTree) : Prop where
  nodup : t.keys.Nodup
  named : ∀ names ∈ t.keys, names ≠ [] ∧ ∀ name ∈ names, Path.IsName name
  inDirectory : ∀ names ∈ t.keys, t.isDirectoryAt names.dropLast = true

instance (t : FileTree) : Decidable t.WellFormed :=
  decidable_of_iff (t.keys.Nodup ∧
      (∀ names ∈ t.keys, names ≠ [] ∧ ∀ name ∈ names, Path.IsName name) ∧
      ∀ names ∈ t.keys, t.isDirectoryAt names.dropLast = true)
    ⟨fun ⟨nodup, named, inDirectory⟩ => ⟨nodup, named, inDirectory⟩,
      fun ⟨nodup, named, inDirectory⟩ => ⟨nodup, named, inDirectory⟩⟩

/-- Behind the root, what stands under names is listed. -/
theorem entry?_of_ne_nil (ne : names ≠ []) : t.entry? names = t.entries.lookup names := by
  unfold entry?
  rw [if_neg (by simpa using ne)]

theorem entry?_put_self (ne : names ≠ []) (entry : Entry) :
    FileTree.entry? (t.put names entry) names = some entry := by
  rw [entry?_of_ne_nil ne]
  exact Keyed.lookup_put_self names entry t.entries

theorem entry?_put_of_ne (ne : other ≠ names) (entry : Entry) :
    FileTree.entry? (t.put names entry) other = t.entry? other := by
  by_cases root : other = []
  · rw [root]
    rfl
  · rw [entry?_of_ne_nil root, entry?_of_ne_nil root]
    exact Keyed.lookup_put_of_ne ne entry t.entries

/-- Names under which nothing stands are not listed, and are not the root. -/
theorem of_entry?_eq_none (free : t.entry? names = none) : names ≠ [] ∧ names ∉ t.keys := by
  have ne : names ≠ [] := by
    rintro rfl
    cases free
  refine ⟨ne, fun mem => ?_⟩
  rw [entry?_of_ne_nil ne, List.lookup_eq_none_iff] at free
  obtain ⟨pair, inside, rfl⟩ := List.mem_map.mp mem
  simpa using free pair inside

/-- Where there is no directory is not the root. -/
theorem ne_nil_of_not_isDirectoryAt (h : t.isDirectoryAt names = false) : names ≠ [] := by
  rintro rfl
  cases h

/-- Under listed names, something stands. -/
theorem mem_keys_of_entry?_eq_some {entry : Entry} (ne : names ≠ [])
    (h : t.entry? names = some entry) :
    names ∈ t.keys := by
  rw [entry?_of_ne_nil ne] at h
  exact Keyed.mem_of_lookup_ne_none (by rw [h]; simp)

/-- Putting something lists its names, if they are not listed. -/
theorem keys_put (t : FileTree) (names : List String) (entry : Entry) :
    (t.put names entry).keys = if names ∈ t.keys then t.keys else t.keys ++ [names] := by
  unfold keys put
  split
  · rename_i listed
    exact Keyed.map_fst_put_of_mem listed
  · rename_i new
    rw [Keyed.put_of_not_mem new, List.map_append]
    rfl

/-! ### Following -/

/-- A computation that goes on from the result of another one succeeds exactly if both do. -/
theorem bind_eq_ok_iff {ε α β : Type} {first : Except ε α} {next : α → Except ε β} {b : β} :
    first >>= next = .ok b ↔ ∃ a, first = .ok a ∧ next a = .ok b := by
  cases first with
  | error e => simp [bind, Except.bind]
  | ok a => simp [bind, Except.bind]

/-- To follow segments is to take the first step and to follow the others from there. -/
theorem foldlM_step_cons_iff {segment : String} {rest base : List String} :
    (segment :: rest).foldlM t.step base = .ok names ↔
      ∃ middle, t.step base segment = .ok middle ∧ rest.foldlM t.step middle = .ok names := by
  rw [List.foldlM_cons, bind_eq_ok_iff]

/-- To follow segments is to follow some of them and then the others. -/
theorem foldlM_step_append_iff {front behind base : List String} :
    (front ++ behind).foldlM t.step base = .ok names ↔
      ∃ middle, front.foldlM t.step base = .ok middle ∧ behind.foldlM t.step middle = .ok names := by
  rw [List.foldlM_append, bind_eq_ok_iff]

/-- A step is taken from a directory and goes where it says, and to a name only if something stands
under it. -/
theorem step_eq_ok_iff {base : List String} {segment : String} :
    t.step base segment = .ok names ↔
      t.isDirectoryAt base = true ∧
        names = (Path.Component.ofSegment? segment).toList.foldl Path.Normal.step base ∧
        ∀ name, Path.Component.ofSegment? segment = some (.name name) →
          (t.entry? (base ++ [name])).isSome = true := by
  have arrives (there : List String) :
      (.ok there : Except FileError (List String)) = .ok names ↔ names = there := by
    rw [Except.ok.injEq, eq_comm]
  unfold step isDirectoryAt
  split
  · rename_i nothing
    simp [nothing]
  · rename_i isFile
    simp [isFile]
  · rename_i isDirectory
    rw [isDirectory]
    unfold Path.Component.ofSegment?
    -- The three kinds of segment are told apart as they are when a segment is made a step.
    by_cases blank : (segment == "" || segment == ".") = true
    · rw [if_pos blank, if_pos blank, arrives]
      simp
    · rw [if_neg blank, if_neg blank]
      by_cases up : (segment == "..") = true
      · rw [if_pos up, if_pos up, arrives]
        simp [Path.Normal.step]
      · rw [if_neg up, if_neg up]
        by_cases stands : (t.entry? (base ++ [segment])).isSome = true
        · rw [if_pos stands, arrives]
          simp [Path.Normal.step, stands]
        · rw [if_neg stands]
          simp [stands]

/-- Following segments leads to the names that their steps leave. -/
theorem foldlM_step_eq_ok {segments base : List String}
    (h : segments.foldlM t.step base = .ok names) :
    names = (segments.filterMap Path.Component.ofSegment?).foldl Path.Normal.step base := by
  induction segments generalizing base with
  | nil => exact (Except.ok.inj h).symm
  | cons segment rest ih =>
    obtain ⟨middle, first, others⟩ := foldlM_step_cons_iff.1 h
    rw [ih others, (step_eq_ok_iff.1 first).2.1, List.filterMap_cons]
    cases Path.Component.ofSegment? segment <;> rfl

/-- A path that leads somewhere leads to the names of its normal form. -/
theorem resolve_eq_ok {path : String} (h : t.resolve path = .ok names) :
    names = (Path.Normal.ofPath path).names := by
  rw [Path.names_ofPath]
  exact foldlM_step_eq_ok h

/-! ### What stands in directories -/

/-- What stands somewhere stands in a directory. -/
def Closed (t : FileTree) : Prop :=
  ∀ names, (t.entry? names).isSome = true → t.isDirectoryAt names.dropLast = true

theorem WellFormed.closed (wf : t.WellFormed) : t.Closed := by
  intro names stands
  by_cases root : names = []
  · rw [root]
    rfl
  · obtain ⟨entry, found⟩ := Option.isSome_iff_exists.mp stands
    exact wf.inDirectory names (mem_keys_of_entry?_eq_some root found)

namespace Closed

/-- Segments that lead somewhere lead to something. -/
theorem isSome_of_follow (closed : t.Closed) {segments : List String}
    (followed : t.follow segments = .ok names) : (t.entry? names).isSome = true := by
  have along (list base : List String) (stands : (t.entry? base).isSome = true)
      (h : list.foldlM t.step base = .ok names) : (t.entry? names).isSome = true := by
    induction list generalizing base with
    | nil =>
      cases h
      exact stands
    | cons segment rest ih =>
      obtain ⟨middle, first, others⟩ := foldlM_step_cons_iff.1 h
      refine ih middle ?_ others
      obtain ⟨-, rfl, next⟩ := step_eq_ok_iff.1 first
      cases step : Path.Component.ofSegment? segment with
      | none => exact stands
      | some c =>
        cases c with
        | name name => exact next name step
        | root | here => exact stands
        | up =>
          -- What has been reached stands in the directory above it.
          have isDirectory := closed base stands
          show (t.entry? base.dropLast).isSome = true
          rw [eq_of_beq isDirectory]
          rfl
  exact along segments [] rfl followed

/-- So they lead to a directory, unless they lead to a file. -/
theorem isDirectory_of_follow (closed : t.Closed) {segments : List String}
    (followed : t.follow segments = .ok names)
    (noFile : ∀ content, t.entry? names ≠ some (.file content)) :
    t.entry? names = some .directory := by
  obtain ⟨entry, found⟩ := Option.isSome_iff_exists.mp (closed.isSome_of_follow followed)
  cases entry with
  | directory => exact found
  | file content => exact absurd found (noFile content)

/-- Putting something in a directory, in the place of no other directory, leaves it closed. -/
theorem put (closed : t.Closed) {base : List String} {name : String} {entry : Entry}
    (isDirectory : t.entry? base = some .directory)
    (kept : t.entry? (base ++ [name]) = some .directory → entry = .directory) :
    (t.put (base ++ [name]) entry).Closed := by
  intro names stands
  have ne : base ++ [name] ≠ [] := by simp
  -- Directories are still directories.
  have still {other : List String} (was : t.entry? other = some .directory) :
      (t.put (base ++ [name]) entry).isDirectoryAt other = true := by
    by_cases same : other = base ++ [name]
    · rw [same] at was ⊢
      rw [isDirectoryAt, entry?_put_self ne, kept was]
      rfl
    · rw [isDirectoryAt, entry?_put_of_ne same, was]
      rfl
  by_cases same : names = base ++ [name]
  · rw [same, List.dropLast_concat]
    exact still isDirectory
  · rw [entry?_put_of_ne same] at stands
    exact still (eq_of_beq (closed names stands))

end Closed

/-! ### Keeping -/

/-- Directories stay directories and files stay files. -/
def Keeps (t t' : FileTree) : Prop :=
  ∀ names, (t.entry? names = some .directory → t'.entry? names = some .directory) ∧
    ∀ content, t.entry? names = some (.file content) →
      ∃ content', t'.entry? names = some (.file content')

namespace Keeps

theorem refl (t : FileTree) : t.Keeps t := fun _ => ⟨id, fun content h => ⟨content, h⟩⟩

theorem trans {a b c : FileTree} (first : a.Keeps b) (second : b.Keeps c) : a.Keeps c := by
  intro names
  refine ⟨fun h => (second names).1 ((first names).1 h), fun content h => ?_⟩
  obtain ⟨content', h'⟩ := (first names).2 content h
  exact (second names).2 content' h'

theorem isSome (keeps : t.Keeps t') (h : (t.entry? names).isSome = true) :
    (t'.entry? names).isSome = true := by
  cases entry : t.entry? names with
  | none =>
    rw [entry] at h
    cases h
  | some found =>
    cases found with
    | directory => rw [(keeps names).1 entry]; rfl
    | file content =>
      obtain ⟨content', entry'⟩ := (keeps names).2 content entry
      rw [entry']
      rfl

/-- A step that can be taken can still be taken. -/
theorem step_eq_ok (keeps : t.Keeps t') {base : List String} {segment : String}
    (h : t.step base segment = .ok names) : t'.step base segment = .ok names := by
  obtain ⟨isDirectory, eq, stands⟩ := step_eq_ok_iff.1 h
  refine step_eq_ok_iff.2 ⟨?_, eq, fun name isName => keeps.isSome (stands name isName)⟩
  rw [isDirectoryAt, (keeps base).1 (eq_of_beq isDirectory)]
  rfl

/-- Segments that lead somewhere still do. -/
theorem follow_eq_ok (keeps : t.Keeps t') {segments : List String}
    (h : t.follow segments = .ok names) : t'.follow segments = .ok names := by
  have along (list base : List String) (h : list.foldlM t.step base = .ok names) :
      list.foldlM t'.step base = .ok names := by
    induction list generalizing base with
    | nil => exact h
    | cons segment rest ih =>
      obtain ⟨middle, first, others⟩ := foldlM_step_cons_iff.1 h
      exact foldlM_step_cons_iff.2 ⟨middle, keeps.step_eq_ok first, ih middle others⟩
  exact along segments [] h

/-- Putting something new keeps all that is there. -/
theorem put_of_free (free : t.entry? names = none) (entry : Entry) :
    t.Keeps (t.put names entry) := by
  intro other
  by_cases same : other = names
  · rw [same, free]
    constructor
    · intro h
      cases h
    · intro content h
      cases h
  · rw [entry?_put_of_ne same]
    exact ⟨id, fun content h => ⟨content, h⟩⟩

/-- A file may replace a file. -/
theorem put_file (noDirectory : t.isDirectoryAt names = false) (content : Content) :
    t.Keeps (t.put names (.file content)) := by
  intro other
  by_cases same : other = names
  · rw [same, entry?_put_self (ne_nil_of_not_isDirectoryAt noDirectory)]
    refine ⟨fun h => ?_, fun _ _ => ⟨content, rfl⟩⟩
    rw [isDirectoryAt, h] at noDirectory
    cases noDirectory
  · rw [entry?_put_of_ne same]
    exact ⟨id, fun content h => ⟨content, h⟩⟩

end Keeps

end FileTree

end TypedProps
