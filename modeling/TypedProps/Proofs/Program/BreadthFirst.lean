import Mathlib.Data.List.Infix
import Mathlib.Data.List.Nodup

/-!
# `TypedProps.Proofs.Program.BreadthFirst`: what a search in breadth finds, and in which order

`BreadthFirst next start found` says that `found` lists everything that can be reached from `start`
along `next`, in the order of discovery: the start, and then, one found thing after the other, what
follows it and has not been listed before. There is only one such list (`BreadthFirst.unique`), and
it goes by distance: what is reached in at most `n` steps stands in front of everything else
(`BreadthFirst.exists_front`).
-/

set_option autoImplicit false

namespace TypedProps

variable {α : Type} [DecidableEq α]

/-- Without its repetitions, a list has no repetitions. -/
theorem nodup_eraseDups (list : List α) : list.eraseDups.Nodup := by
  cases list with
  | nil => exact List.nodup_nil
  | cons a rest =>
    rw [List.eraseDups_cons, List.nodup_cons]
    constructor
    · simp [List.mem_eraseDups]
    · exact nodup_eraseDups (rest.filter fun b => !b == a)
termination_by list.length
decreasing_by
  have := List.length_filter_le (fun b => !b == a) rest
  simp only [List.length_cons]
  omega

/-- What begins a list also begins it without the repetitions. -/
theorem eraseDups_prefix {front list : List α} (h : front <+: list) :
    front.eraseDups <+: list.eraseDups := by
  obtain ⟨more, rfl⟩ := h
  rw [List.eraseDups_append]
  exact List.prefix_append _ _

/-- `ReachedIn next start n x`: a walk of `n` steps along `next` leads from `start` to `x`. -/
inductive ReachedIn (next : α → List α) (start : α) : Nat → α → Prop
  | start : ReachedIn next start 0 start
  | step {n : Nat} {a b : α} (reached : ReachedIn next start n a) (follows : b ∈ next a) :
      ReachedIn next start (n + 1) b

/-- `found` is what a search in breadth finds from `start`: all that can be reached, in the order in
which the start and then what follows each found thing mention it first. -/
structure BreadthFirst (next : α → List α) (start : α) (found : List α) : Prop where
  mem_iff : ∀ x, x ∈ found ↔ ∃ n, ReachedIn next start n x
  order : found = (start :: found.flatMap next).eraseDups

namespace BreadthFirst

variable {next : α → List α} {start : α} {found other : List α}

/-- A list in the order of discovery holds all that can be reached, so it is what the search finds
if it holds nothing else. -/
theorem of_order (order : found = (start :: found.flatMap next).eraseDups)
    (sound : ∀ x ∈ found, ∃ n, ReachedIn next start n x) : BreadthFirst next start found := by
  refine ⟨fun x => ⟨sound x, ?_⟩, order⟩
  rintro ⟨n, reached⟩
  have mem_of {x : α} (mentioned : x ∈ start :: found.flatMap next) : x ∈ found := by
    rw [order]
    exact List.mem_eraseDups.mpr mentioned
  induction reached with
  | start => exact mem_of List.mem_cons_self
  | step _ follows ih =>
    exact mem_of (List.mem_cons_of_mem _ (List.mem_flatMap.mpr ⟨_, ih, follows⟩))

theorem nodup (search : BreadthFirst next start found) : found.Nodup := by
  rw [search.order]
  exact nodup_eraseDups _

/-- What the first found things mention begins the list. -/
theorem mentioned_prefix (search : BreadthFirst next start found) {front : List α}
    (h : front <+: found) : (start :: front.flatMap next).eraseDups <+: found := by
  have longer : (start :: front.flatMap next).eraseDups
      <+: (start :: found.flatMap next).eraseDups :=
    eraseDups_prefix ((List.prefix_cons_inj start).mpr (List.IsPrefix.flatMap h next))
  rwa [← search.order] at longer

/-- What is reached in at most `n` steps stands in front. -/
theorem exists_front (search : BreadthFirst next start found) (n : Nat) :
    ∃ front, front <+: found ∧ ∀ x, x ∈ front ↔ ∃ d ≤ n, ReachedIn next start d x := by
  -- Each layer is mentioned by the one before it.
  induction n with
  | zero =>
    refine ⟨[start], ?_, fun x => ?_⟩
    · have first := search.mentioned_prefix (List.nil_prefix : [] <+: found)
      simpa [List.eraseDups_cons] using first
    · rw [List.mem_singleton]
      constructor
      · rintro rfl
        exact ⟨0, Nat.le_refl 0, .start⟩
      · rintro ⟨d, le, reached⟩
        obtain rfl : d = 0 := by omega
        cases reached
        rfl
  | succ n ih =>
    obtain ⟨front, begins, layer⟩ := ih
    refine ⟨_, search.mentioned_prefix begins, fun x => ?_⟩
    rw [List.mem_eraseDups, List.mem_cons, List.mem_flatMap]
    constructor
    · rintro (rfl | ⟨a, inside, follows⟩)
      · exact ⟨0, by omega, .start⟩
      · obtain ⟨d, le, reached⟩ := (layer a).mp inside
        exact ⟨d + 1, by omega, .step reached follows⟩
    · rintro ⟨d, le, reached⟩
      cases reached with
      | start => exact Or.inl rfl
      | step reached follows => exact Or.inr ⟨_, (layer _).mpr ⟨_, by omega, reached⟩, follows⟩

/-- If the first `n` found things mention nothing behind them, there is nothing behind them. -/
theorem eq_take_of_length_le (search : BreadthFirst next start found) {n : Nat}
    (le : (start :: (found.take n).flatMap next).eraseDups.length ≤ n) : found = found.take n := by
  have begins := search.mentioned_prefix (List.take_prefix n found)
  have inside {x : α} (mentioned : x ∈ start :: (found.take n).flatMap next) :
      x ∈ found.take n := by
    -- What is mentioned begins the list too, and it is not longer.
    have front : (start :: (found.take n).flatMap next).eraseDups <+: found.take n :=
      List.prefix_take_iff.mpr ⟨begins, le⟩
    exact front.subset (List.mem_eraseDups.mpr mentioned)
  have all : ∀ x ∈ found, x ∈ found.take n := by
    intro x mem
    obtain ⟨d, reached⟩ := (search.mem_iff x).mp mem
    clear mem
    induction reached with
    | start => exact inside List.mem_cons_self
    | step _ follows ih =>
      exact inside (List.mem_cons_of_mem _ (List.mem_flatMap.mpr ⟨_, ih, follows⟩))
  have nothing : found.drop n = [] := by
    have apart := search.nodup
    rw [← List.take_append_drop n found] at apart
    rw [List.eq_nil_iff_forall_not_mem]
    intro x mem
    exact (List.nodup_append.mp apart).2.2 x (all x (List.mem_of_mem_drop mem)) x mem rfl
  calc found = found.take n ++ found.drop n := (List.take_append_drop n found).symm
    _ = found.take n := by rw [nothing, List.append_nil]

/-- There is only one list of what a search in breadth finds. -/
theorem unique (search : BreadthFirst next start found)
    (search' : BreadthFirst next start other) : found = other := by
  -- The lists agree as far as one has compared them, and the part that agrees mentions what stands
  -- behind it, the same in both.
  have agree (n : Nat) : found.take n = other.take n := by
    induction n with
    | zero => rfl
    | succ n ih =>
      have begins := search.mentioned_prefix (List.take_prefix n found)
      have begins' := search'.mentioned_prefix (List.take_prefix n other)
      rw [← ih] at begins'
      by_cases le : (start :: (found.take n).flatMap next).eraseDups.length ≤ n
      · have whole := search.eq_take_of_length_le le
        have whole' := search'.eq_take_of_length_le (ih ▸ le)
        rw [whole, whole', ih]
      · have longer : n + 1 ≤ (start :: (found.take n).flatMap next).eraseDups.length := by omega
        have front {list : List α}
            (h : (start :: (found.take n).flatMap next).eraseDups <+: list) :
            list.take (n + 1)
              = ((start :: (found.take n).flatMap next).eraseDups).take (n + 1) := by
          obtain ⟨more, rfl⟩ := h
          rw [List.take_append_of_le_length longer]
        rw [front begins, front begins']
  have enough := agree (max found.length other.length)
  rwa [List.take_of_length_le (by omega), List.take_of_length_le (by omega)] at enough

end BreadthFirst

end TypedProps
