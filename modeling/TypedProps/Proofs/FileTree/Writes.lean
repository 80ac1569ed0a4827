import TypedProps.Proofs.FileTree.Entries

/-!
# `TypedProps.Proofs.FileTree.Writes`: what writing does to a file tree

Writing a file makes the directories that are missing and then puts the file in its place. `Writes`
is the relation between a tree, some files that are written in order, and the tree afterwards. All
that is known about writing is proved of it once: what is not written stays (`entry?_of_not_mem`),
the last text that is written to a file is its content (`entry?_of_last`), directories stay
directories and files stay files (`keeps`).

`write_eq_ok` says that a successful write is such a step, at the names to which the path leads from
the root, and `write_again` that the same path can then be written over and over.
-/

set_option autoImplicit false

namespace TypedProps

namespace FileTree

variable {t t' u : FileTree} {names other : List String}

/-! ### Writes -/

/-- The tree `t'` comes from `t` by writing files in order, and by making directories where nothing
stands. -/
inductive Writes : FileTree → List (List String × String) → FileTree → Prop
  | done {t : FileTree} : Writes t [] t
  | make {t t' : FileTree} {names : List String} {files : List (List String × String)}
      (free : t.entry? names = none) (more : Writes (t.put names .directory) files t') :
      Writes t files t'
  | write {t t' : FileTree} {names : List String} {text : String}
      {files : List (List String × String)} (noDirectory : t.isDirectoryAt names = false)
      (more : Writes (t.put names (.file (.text text))) files t') :
      Writes t ((names, text) :: files) t'

namespace Writes

variable {files more : List (List String × String)}

/-- Writes follow one another. -/
theorem trans (first : Writes t files u) (second : Writes u more t') :
    Writes t (files ++ more) t' := by
  induction first with
  | done => exact second
  | make free _ ih => exact .make free (ih second)
  | write noDirectory _ ih => exact .write noDirectory (ih second)

/-- Writing keeps the kind of all that is there. -/
theorem keeps (writes : Writes t files t') : t.Keeps t' := by
  induction writes with
  | done => exact .refl _
  | make free _ ih => exact (Keeps.put_of_free free _).trans ih
  | write noDirectory _ ih => exact (Keeps.put_file noDirectory _).trans ih

/-- What is not written stays, or is a directory where nothing was. -/
theorem entry?_of_not_mem (writes : Writes t files t') (away : names ∉ files.map (·.1)) :
    t'.entry? names = t.entry? names ∨
      t.entry? names = none ∧ t'.entry? names = some .directory := by
  induction writes with
  | done => exact Or.inl rfl
  | @make t t' made files free rest ih =>
    by_cases same : names = made
    · subst same
      have put := @entry?_put_self t names (of_entry?_eq_none free).1 .directory
      exact Or.inr ⟨free, (rest.keeps names).1 put⟩
    · have put := @entry?_put_of_ne t made names same .directory
      rw [← put]
      exact ih away
  | @write t t' written text files _ _ ih =>
    obtain ⟨ne, away⟩ := not_or.mp (mt List.mem_cons.mpr away)
    have put := @entry?_put_of_ne t written names ne (.file (.text text))
    rw [← put]
    exact ih away

/-- A file that is not written keeps its content, and no file comes from nowhere. -/
theorem entry?_file_iff (writes : Writes t files t') (away : names ∉ files.map (·.1))
    {content : Content} :
    t'.entry? names = some (.file content) ↔ t.entry? names = some (.file content) := by
  rcases writes.entry?_of_not_mem away with same | ⟨free, made⟩
  · rw [same]
  · rw [free, made]
    constructor
    · intro h
      cases h
    · intro h
      cases h

/-- The last text that is written to a file is its content. -/
theorem entry?_of_last {text : String} (writes : Writes t (files ++ (names, text) :: more) t')
    (away : names ∉ more.map (·.1)) : t'.entry? names = some (.file (.text text)) := by
  generalize eq : files ++ (names, text) :: more = all at writes
  induction writes generalizing files with
  | done => simp at eq
  | make _ _ ih => exact ih eq
  | @write t t' written _ _ noDirectory rest ih =>
    cases files with
    | nil =>
      rw [List.nil_append] at eq
      obtain ⟨same, rfl⟩ := List.cons.inj eq
      obtain ⟨rfl, rfl⟩ := Prod.mk.inj same
      have ne := ne_nil_of_not_isDirectoryAt noDirectory
      have put := @entry?_put_self t names ne (.file (.text text))
      exact (rest.entry?_file_iff away).mpr put
    | cons file files =>
      rw [List.cons_append] at eq
      exact ih (List.cons.inj eq).2

/-- What a tree shows of its files does not change where what is written shows nothing. -/
theorem filterMap_entries {β : Type} {shows : List String × Entry → Option β}
    (writes : Writes t files t') (noDirectories : ∀ names, shows (names, .directory) = none)
    (hidden : ∀ file ∈ files, ∀ entry, shows (file.1, entry) = none) :
    t'.entries.filterMap shows = t.entries.filterMap shows := by
  induction writes with
  | done => rfl
  | make free _ ih =>
    rw [ih hidden]
    have new := (of_entry?_eq_none free).2
    rw [FileTree.put, Keyed.put_of_not_mem new, List.filterMap_append, List.filterMap_cons,
      noDirectories]
    simp
  | write _ _ ih =>
    rw [ih fun file mem => hidden file (List.mem_cons_of_mem _ mem)]
    exact Keyed.filterMap_put (hidden _ List.mem_cons_self)

/-- Nothing is listed twice after writing. -/
theorem nodup_keys (writes : Writes t files t') (nodup : t.keys.Nodup) : t'.keys.Nodup := by
  have put (t : FileTree) (names : List String) (entry : Entry) (nodup : t.keys.Nodup) :
      (t.put names entry).keys.Nodup := by
    rw [keys_put]
    split
    · exact nodup
    · rename_i new
      refine List.nodup_append.mpr ⟨nodup, by simp, ?_⟩
      intro listed mem other single same
      rw [same, List.mem_singleton.mp single] at mem
      exact new mem
  induction writes with
  | done => exact nodup
  | make _ _ ih => exact ih (put _ _ _ nodup)
  | write _ _ ih => exact ih (put _ _ _ nodup)

/-- The root is not listed after writing. -/
theorem nil_not_mem_keys (writes : Writes t files t') (noRoot : [] ∉ t.keys) : [] ∉ t'.keys := by
  have put (t : FileTree) {names : List String} (ne : names ≠ []) (entry : Entry)
      (noRoot : [] ∉ t.keys) : [] ∉ (t.put names entry).keys := by
    rw [keys_put]
    split
    · exact noRoot
    · simpa [noRoot] using ne
  induction writes with
  | done => exact noRoot
  | make free _ ih => exact ih (put _ (of_entry?_eq_none free).1 _ noRoot)
  | write noDirectory _ ih => exact ih (put _ (ne_nil_of_not_isDirectoryAt noDirectory) _ noRoot)

/-- Among the files that are written, each has a last text. -/
theorem exists_last (mem : names ∈ files.map (·.1)) :
    ∃ before text after, files = before ++ (names, text) :: after ∧ names ∉ after.map (·.1) := by
  induction files with
  | nil => cases mem
  | cons file rest ih =>
    by_cases later : names ∈ rest.map (·.1)
    · obtain ⟨before, text, after, rfl, away⟩ := ih later
      exact ⟨file :: before, text, after, rfl, away⟩
    · obtain rfl := (List.mem_cons.mp mem).resolve_right later
      exact ⟨[], file.2, rest, rfl, later⟩

/-- Writing the same files again without a new directory or file leaves the tree as it is. -/
theorem eq_of_again (writes : Writes t files t') (again : Writes t' files u)
    (nodup : t.keys.Nodup) (noRoot : [] ∉ t.keys) (same : u.keys = t'.keys) : u = t' := by
  have nodup' := writes.nodup_keys nodup
  have noRoot' := writes.nil_not_mem_keys noRoot
  have entries : u.entries = t'.entries := by
    refine Keyed.eq_of_lookup_eq same (by rw [← keys, same]; exact nodup') fun key mem => ?_
    rw [← keys, same] at mem
    have ne : key ≠ [] := by
      rintro rfl
      exact noRoot' mem
    rw [← entry?_of_ne_nil ne, ← entry?_of_ne_nil ne]
    by_cases isWritten : key ∈ files.map (·.1)
    · obtain ⟨before, text, after, rfl, away⟩ := exists_last isWritten
      rw [again.entry?_of_last away, writes.entry?_of_last away]
    · refine (again.entry?_of_not_mem isWritten).resolve_right fun ⟨free, _⟩ => ?_
      exact (of_entry?_eq_none free).2 mem
  cases u
  cases t'
  exact congrArg FileTree.mk entries

end Writes

/-! ### Making directories and writing a file -/

/-- The steps of a path as segments are its segments without those that lead nowhere. -/
theorem filterMap_stepsOf (path : String) :
    (stepsOf path).filterMap Path.Component.ofSegment? = Path.steps path := by
  unfold stepsOf Path.steps
  rw [List.filterMap_filter]
  congr 1
  funext segment
  split
  · rfl
  · rename_i blank
    symm
    rw [Path.ofSegment?_eq_none_iff]
    by_contra none
    obtain ⟨nonempty, noDot⟩ := not_or.mp none
    simp [nonempty, noDot] at blank

/-- Making a directory puts it where nothing was. -/
theorem makeDirectory_eq_ok {steps : List String} (h : t.makeDirectory steps = .ok t') :
    ∃ base name, t.follow steps.dropLast = .ok base ∧
      (∀ content, t.entry? base ≠ some (.file content)) ∧
      t.entry? (base ++ [name]) = none ∧ t' = t.put (base ++ [name]) .directory := by
  obtain ⟨base, followed, h⟩ := bind_eq_ok_iff.1 h
  split at h
  · cases h
  · cases h
  · cases h
  · rename_i name _ _ noFile
    dsimp only at h
    split at h
    · cases h
    · rename_i free
      exact ⟨base, name, followed, noFile, by simpa using free, (Except.ok.inj h).symm⟩

/-- What making one directory preserves is preserved by making directories. -/
theorem makeDirectories_induction {motive : FileTree → FileTree → Prop}
    (refl : ∀ t, motive t t) (trans : ∀ {t u v}, motive t u → motive u v → motive t v)
    (made : ∀ {t t' : FileTree} {steps : List String}, t.makeDirectory steps = .ok t' → motive t t')
    {steps : List String} (h : t.makeDirectories steps = .ok t') : motive t t' := by
  have existing {t t' : FileTree} {steps : List String} {e : FileError}
      (h : (if t.isDirectoryAfter steps then Except.ok t else Except.error e) = .ok t') :
      motive t t' := by
    split at h
    · cases h
      exact refl t
    · cases h
  -- The steps are listed from the last one, so the induction goes up from the directory.
  induction steps generalizing t t' with
  | nil =>
    cases h
    exact refl t
  | cons last before ih =>
    rw [makeDirectories] at h
    dsimp only at h
    split at h
    · rename_i first
      cases h
      exact made first
    · -- The directory above is missing too.
      obtain ⟨u, above, h⟩ := bind_eq_ok_iff.1 h
      refine trans (ih above) ?_
      split at h
      · rename_i second
        cases h
        exact made second
      · exact existing h
    · exact existing h

/-- Making directories writes no file. -/
theorem makeDirectories_eq_ok {steps : List String} (h : t.makeDirectories steps = .ok t') :
    Writes t [] t' := by
  refine makeDirectories_induction (motive := fun t t' => Writes t [] t') (fun _ => .done)
    (fun first second => first.trans second) (fun made => ?_) h
  obtain ⟨base, name, -, -, free, rfl⟩ := makeDirectory_eq_ok made
  exact .make free .done

/-- Making directories leaves a tree closed. -/
theorem Closed.makeDirectories (closed : t.Closed) {steps : List String}
    (h : t.makeDirectories steps = .ok t') : t'.Closed := by
  refine makeDirectories_induction (motive := fun t t' => t.Closed → t'.Closed) (fun _ => id)
    (fun first second => second ∘ first) (fun made closed => ?_) h closed
  obtain ⟨base, name, followed, noFile, -, rfl⟩ := makeDirectory_eq_ok made
  exact closed.put (closed.isDirectory_of_follow followed noFile) fun _ => rfl

/-- Where something stands, or behind a way up, no directory is made. -/
theorem makeDirectory_of_stands {steps base : List String} {last : String}
    (followed : t.follow steps.dropLast = .ok base) (isDirectory : t.entry? base = some .directory)
    (isLast : steps.getLast? = some last)
    (stands : last = ".." ∨ (t.entry? (base ++ [last])).isSome = true) :
    t.makeDirectory steps = .error .alreadyExists := by
  unfold makeDirectory
  rw [followed]
  dsimp only [bind, Except.bind]
  rw [isDirectory, isLast]
  rcases stands with rfl | stands
  · rfl
  · by_cases up : last = ".."
    · rw [up]
      rfl
    · split
      · rename_i same
        cases same
      · rfl
      · rfl
      · rename_i name _ same _
        obtain rfl := Option.some.inj same
        rw [if_pos stands]
        rfl

/-- A directory that is there is not made again. -/
theorem makeDirectories_of_isDirectoryAfter {steps : List String}
    (proper : ∀ segment ∈ steps, segment ≠ "" ∧ segment ≠ ".")
    (h : t.isDirectoryAfter steps = true) : t.makeDirectories steps.reverse = .ok t := by
  rcases List.eq_nil_or_concat steps with rfl | ⟨before, last, rfl⟩
  · rfl
  · rw [List.concat_eq_append] at h proper ⊢
    rw [List.reverse_concat, makeDirectories, List.reverse_cons, List.reverse_reverse]
    -- All but the last step lead to a directory, in which the last one leads to something.
    have fails : t.makeDirectory (before ++ [last]) = .error .alreadyExists := by
      have whole := h
      unfold isDirectoryAfter at whole
      split at whole
      · rename_i names arrived
        obtain ⟨base, followed, ahead⟩ := foldlM_step_append_iff.1 arrived
        obtain ⟨_, stepped, -⟩ := foldlM_step_cons_iff.1 ahead
        obtain ⟨isDirectory, -, stands⟩ := step_eq_ok_iff.1 stepped
        refine makeDirectory_of_stands (by rw [List.dropLast_concat]; exact followed)
          (by simpa [isDirectoryAt] using isDirectory) List.getLast?_concat ?_
        by_cases up : last = ".."
        · exact Or.inl up
        · obtain ⟨nonempty, noDot⟩ := proper last (by simp)
          exact Or.inr (stands last (by simp [Path.Component.ofSegment?, nonempty, noDot, up]))
      · cases whole
    dsimp only
    rw [fails]
    dsimp only
    rw [if_pos h]

/-- A path ends in a name: the directory in front of it, and the name. -/
def EndsIn (path : String) (front : List String) (name : String) : Prop :=
  stepsOf path = front ++ [name] ∧ name ≠ ".."

/-- A path that ends in a name leads to that name behind its front. -/
theorem EndsIn.names_eq {path name : String} {front : List String} (ends : EndsIn path front name) :
    (Path.Normal.ofPath path).names
      = (front.filterMap Path.Component.ofSegment?).foldl Path.Normal.step [] ++ [name] := by
  obtain ⟨eq, notUp⟩ := ends
  have mem : name ∈ stepsOf path := by rw [eq]; simp
  have proper : name ≠ "" ∧ name ≠ "." := by simpa using (List.mem_filter.mp mem).2
  have isName : Path.Component.ofSegment? name = some (.name name) := by
    simp [Path.Component.ofSegment?, proper.1, proper.2, notUp]
  rw [Path.names_ofPath, ← filterMap_stepsOf, eq, List.filterMap_append, List.filterMap_cons,
    isName, List.foldl_append]
  rfl

/-- Writing a file under steps puts it where they lead, unless a directory is there. -/
theorem writeFile_eq_ok {steps : List String} {text : String}
    (h : t.writeFile steps text = .ok t') :
    ∃ base name, t.follow steps.dropLast = .ok base ∧ steps.getLast? = some name ∧ name ≠ ".." ∧
      (∀ content, t.entry? base ≠ some (.file content)) ∧
      t.isDirectoryAt (base ++ [name]) = false ∧
      t' = t.put (base ++ [name]) (.file (.text text)) := by
  obtain ⟨base, followed, h⟩ := bind_eq_ok_iff.1 h
  split at h
  · cases h
  · cases h
  · cases h
  · rename_i name notUp eq noFile
    dsimp only at h
    split at h
    · cases h
    · rename_i noDirectory
      exact ⟨base, name, followed, eq, notUp, noFile, by simpa using noDirectory,
        (Except.ok.inj h).symm⟩

/-- The converse: the file is put where the steps lead. -/
theorem writeFile_of_noDirectory {steps base : List String} {name text : String}
    (followed : t.follow steps.dropLast = .ok base) (isDirectory : t.entry? base = some .directory)
    (isLast : steps.getLast? = some name) (notUp : name ≠ "..")
    (noDirectory : t.isDirectoryAt (base ++ [name]) = false) :
    t.writeFile steps text = .ok (t.put (base ++ [name]) (.file (.text text))) := by
  unfold writeFile
  rw [followed]
  dsimp only [bind, Except.bind]
  rw [isDirectory, isLast]
  split
  · rename_i same
    cases same
  · rename_i missing _
    cases missing
  · rename_i same _
    exact absurd (Option.some.inj same) notUp
  · rename_i same _
    obtain rfl := Option.some.inj same
    rw [if_neg (by rw [noDirectory]; exact Bool.false_ne_true)]
    rfl

/-- What a successful write has done: it has made directories, and then put a file where the path
leads, in front of which there is no file. -/
theorem write_eq_ok {path text : String} (h : t.write path text = .ok t') :
    ∃ front name u base, EndsIn path front name ∧ t.makeDirectories front.reverse = .ok u ∧
      u.follow front = .ok base ∧ (∀ content, u.entry? base ≠ some (.file content)) ∧
      base ++ [name] = (Path.Normal.ofPath path).names ∧
      u.isDirectoryAt (Path.Normal.ofPath path).names = false ∧
      t' = u.put (Path.Normal.ofPath path).names (.file (.text text)) := by
  obtain ⟨u, made, h⟩ := bind_eq_ok_iff.1 h
  obtain ⟨base, name, followed, isLast, notUp, noFile, noDirectory, rfl⟩ := writeFile_eq_ok h
  obtain ⟨front, eq⟩ := List.getLast?_eq_some_iff.mp isLast
  rw [eq, List.dropLast_concat] at followed made
  have ends : EndsIn path front name := ⟨eq, notUp⟩
  have names : base ++ [name] = (Path.Normal.ofPath path).names := by
    rw [ends.names_eq, foldlM_step_eq_ok followed]
  exact ⟨front, name, u, base, ends, made, followed, noFile, names,
    by rw [← names]; exact noDirectory,
    by rw [← names]⟩

/-- A successful write writes the file to which the path leads, and no other. -/
theorem Writes.of_write {path text : String} (h : t.write path text = .ok t') :
    Writes t [((Path.Normal.ofPath path).names, text)] t' := by
  obtain ⟨front, name, u, base, -, made, -, -, -, noDirectory, rfl⟩ := write_eq_ok h
  exact (makeDirectories_eq_ok made).trans (.write noDirectory .done)

/-- Writing a file leaves a tree closed. -/
theorem Closed.write (closed : t.Closed) {path text : String} (h : t.write path text = .ok t') :
    t'.Closed := by
  obtain ⟨front, name, u, base, -, made, followed, noFile, names, noDirectory, rfl⟩ := write_eq_ok h
  have closed' := closed.makeDirectories made
  rw [← names] at noDirectory ⊢
  refine closed'.put (closed'.isDirectory_of_follow followed noFile) fun isDirectory => ?_
  rw [isDirectoryAt, isDirectory] at noDirectory
  cases noDirectory

/-- What has been written can be written again, and then no directory is made. -/
theorem write_again (closed : t.Closed) {path text : String} (h : t.write path text = .ok t')
    (keeps : t'.Keeps u) (more : String) :
    u.write path more = .ok (u.put (Path.Normal.ofPath path).names (.file (.text more))) := by
  obtain ⟨front, name, v, base, ⟨eq, notUp⟩, made, followed, noFile, names, noDirectory, rfl⟩ :=
    write_eq_ok h
  have kept : v.Keeps u := (Keeps.put_file noDirectory _).trans keeps
  have proper : ∀ segment ∈ front, segment ≠ "" ∧ segment ≠ "." := by
    intro segment mem
    have inside : segment ∈ stepsOf path := by
      rw [eq]
      exact List.mem_append_left _ mem
    simpa using (List.mem_filter.mp inside).2
  have isDirectory : u.entry? base = some .directory :=
    (kept base).1 ((closed.makeDirectories made).isDirectory_of_follow followed noFile)
  have followed' := kept.follow_eq_ok followed
  have after : u.isDirectoryAfter front = true := by
    rw [isDirectoryAfter, followed']
    simp [isDirectoryAt, isDirectory]
  have noDirectory' : u.isDirectoryAt (base ++ [name]) = false := by
    -- A file was written there.
    have written := @entry?_put_self v _ (ne_nil_of_not_isDirectoryAt noDirectory)
      (.file (.text text))
    obtain ⟨content, entry⟩ := (keeps _).2 _ written
    rw [isDirectoryAt, names, entry]
    rfl
  unfold write
  dsimp only
  rw [eq, List.dropLast_concat, makeDirectories_of_isDirectoryAfter proper after, ← names]
  exact writeFile_of_noDirectory (by rw [List.dropLast_concat]; exact followed') isDirectory
    List.getLast?_concat notUp noDirectory'

end FileTree

end TypedProps
