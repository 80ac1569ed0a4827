import Mathlib.Data.List.Chain
import Mathlib.Logic.Relation

/-!
# `TypedProps.Proofs.Guarded`: searches that guard the way they have come

A depth-first search can end on a graph with cycles if it puts what it enters under guard and turns
back from what is under guard already. Only some nodes have a key, and only those are guarded. The
guard belongs to the way: a node that several ways share is entered on each of them.

Two things are said about such a search, for every graph whose keys tell nodes apart:

* `Enters.of_reaches`: it enters each node that can be reached. A way that comes to the same node
  twice can be cut short, and what is left of it is not turned back.
* `meets_iff`: it turns back somewhere exactly if it can reach a node with a key that lies on a
  cycle, or one that was under guard when the search began. There is none of the latter if the
  search begins with nothing under guard (`meets_nil_iff`).
-/

set_option autoImplicit false

namespace TypedProps

open Relation

variable {α κ : Type} {step : α → α → Prop} {key : α → Option κ}

/-- `Enters step key guard x y`: a search from `x` comes to `y` and is not turned back there. -/
inductive Enters (step : α → α → Prop) (key : α → Option κ) : List κ → α → α → Prop
  | here {guard : List κ} {x : α} (fresh : ∀ k ∈ key x, k ∉ guard) : Enters step key guard x x
  | beyond {guard : List κ} {x y z : α} (fresh : ∀ k ∈ key x, k ∉ guard) (edge : step x y)
      (rest : Enters step key ((key x).toList ++ guard) y z) : Enters step key guard x z

/-- `Meets step key guard x`: a search from `x` is turned back somewhere. -/
inductive Meets (step : α → α → Prop) (key : α → Option κ) : List κ → α → Prop
  | guarded {guard : List κ} {x : α} {k : κ} (keyed : k ∈ key x) (mem : k ∈ guard) :
      Meets step key guard x
  | beyond {guard : List κ} {x y : α} (fresh : ∀ k ∈ key x, k ∉ guard) (edge : step x y)
      (rest : Meets step key ((key x).toList ++ guard) y) : Meets step key guard x

/-- A node is under guard, or none of its keys is. -/
theorem guarded_or_fresh (key : α → Option κ) (guard : List κ) (x : α) :
    (∃ k ∈ key x, k ∈ guard) ∨ ∀ k ∈ key x, k ∉ guard := by
  by_cases guarded : ∃ k ∈ key x, k ∈ guard
  · exact Or.inl guarded
  · exact Or.inr fun k keyed mem => guarded ⟨k, keyed, mem⟩

/-! ### What is entered -/

/-- Each node of a way none of whose nodes is under guard leads to its end. -/
theorem Enters.of_isChain (injective : ∀ {x y k}, k ∈ key x → k ∈ key y → x = y) {z : α}
    (way : List α) (guard : List κ) (chain : way.IsChain step) (ends : way.getLast? = some z)
    (fresh : ∀ x ∈ way, ∀ k ∈ key x, k ∉ guard) : ∀ x ∈ way, Enters step key guard x z := by
  -- By induction on the way, for each guard, since the guard grows by the nodes that are left
  -- behind.
  induction way generalizing guard with
  | nil => exact fun x mem => absurd mem List.not_mem_nil
  | cons x rest ih =>
    intro w mem
    rcases rest with _ | ⟨y, rest⟩
    · obtain rfl : w = x := List.mem_singleton.mp mem
      obtain rfl : w = z := Option.some.inj ends
      exact .here (fresh w mem)
    obtain ⟨edge, onward⟩ := List.isChain_cons_cons.mp chain
    rw [List.getLast?_cons_cons] at ends
    have freshRest : ∀ u ∈ y :: rest, ∀ k ∈ key u, k ∉ guard := fun u inside =>
      fresh u (List.mem_cons_of_mem x inside)
    rcases List.mem_cons.mp mem with rfl | mem
    · by_cases again : w ∈ y :: rest
      · -- The way comes back to its beginning, and can be cut short.
        exact ih guard onward ends freshRest w again
      · have apart : ∀ u ∈ y :: rest, ∀ k ∈ key u, k ∉ (key w).toList ++ guard := by
          intro u inside k keyed mem
          rcases List.mem_append.mp mem with mem | mem
          · exact again (injective (Option.mem_toList.mp mem) keyed ▸ inside)
          · exact freshRest u inside k keyed mem
        exact .beyond (fresh w List.mem_cons_self) edge
          (ih _ onward ends apart y List.mem_cons_self)
    · exact ih guard onward ends freshRest w mem

/-- A search that begins with nothing under guard enters each node that can be reached. -/
theorem Enters.of_reaches (injective : ∀ {x y k}, k ∈ key x → k ∈ key y → x = y) {x z : α}
    (reaches : ReflTransGen step x z) : Enters step key [] x z := by
  obtain ⟨rest, chain, ends⟩ := List.exists_isChain_cons_of_relationReflTransGen reaches
  have last : (x :: rest).getLast? = some z := by
    rw [List.getLast?_eq_some_getLast (List.cons_ne_nil x rest), ends]
  exact of_isChain injective (x :: rest) [] chain last
    (fun _ _ _ _ => List.not_mem_nil) x List.mem_cons_self

/-! ### Where it is turned back -/

/-- A search is turned back at once, or behind one of the steps that it takes. -/
theorem meets_iff_step {guard : List κ} {x : α} :
    Meets step key guard x ↔ (∃ k ∈ key x, k ∈ guard) ∨
      (∀ k ∈ key x, k ∉ guard) ∧
        ∃ y, step x y ∧ Meets step key ((key x).toList ++ guard) y := by
  constructor
  · rintro (⟨keyed, mem⟩ | ⟨fresh, edge, rest⟩)
    · exact Or.inl ⟨_, keyed, mem⟩
    · exact Or.inr ⟨fresh, _, edge, rest⟩
  · rintro (⟨k, keyed, mem⟩ | ⟨fresh, y, edge, rest⟩)
    · exact .guarded keyed mem
    · exact .beyond fresh edge rest

/-- Where there is no key, a search is turned back behind one of the steps. -/
theorem meets_iff_of_key_eq_none {guard : List κ} {x : α} (unkeyed : key x = none) :
    Meets step key guard x ↔ ∃ y, step x y ∧ Meets step key guard y := by
  rw [meets_iff_step, unkeyed]
  simp

/-- A search that can reach a node under guard is turned back. -/
theorem Meets.of_reaches {guard : List κ} {x y : α} {k : κ} (reaches : ReflTransGen step x y)
    (keyed : k ∈ key y) (mem : k ∈ guard) : Meets step key guard x := by
  induction reaches using ReflTransGen.head_induction_on generalizing guard with
  | refl => exact .guarded keyed mem
  | @head x _ edge _ ih =>
    rcases guarded_or_fresh key guard x with ⟨k', keyed', mem'⟩ | fresh
    · exact .guarded keyed' mem'
    · exact .beyond fresh edge (ih (List.mem_append_right _ mem))

/-- A search that can reach a node with a key on a cycle is turned back. -/
theorem Meets.of_cycle {guard : List κ} {x y : α} {k : κ} (reaches : ReflTransGen step x y)
    (keyed : k ∈ key y) (cycle : TransGen step y y) : Meets step key guard x := by
  induction reaches using ReflTransGen.head_induction_on generalizing guard with
  | refl =>
    obtain ⟨next, edge, back⟩ := TransGen.head'_iff.mp cycle
    rcases guarded_or_fresh key guard y with ⟨k', keyed', mem'⟩ | fresh
    · exact .guarded keyed' mem'
    · exact .beyond fresh edge
        (.of_reaches back keyed (List.mem_append_left _ (Option.mem_toList.mpr keyed)))
  | @head x _ edge _ ih =>
    rcases guarded_or_fresh key guard x with ⟨k', keyed', mem'⟩ | fresh
    · exact .guarded keyed' mem'
    · exact .beyond fresh edge ih

/-- A search is turned back exactly if it can reach a node that was under guard from the start, or
one with a key that lies on a cycle. -/
theorem meets_iff (injective : ∀ {x y k}, k ∈ key x → k ∈ key y → x = y) {guard : List κ} {x : α} :
    Meets step key guard x ↔
      (∃ y, ReflTransGen step x y ∧ ∃ k ∈ key y, k ∈ guard) ∨
        ∃ y, ReflTransGen step x y ∧ (key y).isSome ∧ TransGen step y y := by
  constructor
  · intro meets
    induction meets with
    | guarded keyed mem => exact Or.inl ⟨_, .refl, _, keyed, mem⟩
    | beyond fresh edge _ ih =>
      rcases ih with ⟨y, reaches, k, keyed, mem⟩ | ⟨y, reaches, keyed, cycle⟩
      · rcases List.mem_append.mp mem with mem | mem
        · -- The search is turned back where it has come from.
          have from_here := Option.mem_toList.mp mem
          obtain rfl := injective from_here keyed
          exact Or.inr ⟨_, .refl, Option.isSome_of_mem from_here, .head' edge reaches⟩
        · exact Or.inl ⟨y, .head edge reaches, k, keyed, mem⟩
      · exact Or.inr ⟨y, .head edge reaches, keyed, cycle⟩
  · rintro (⟨y, reaches, k, keyed, mem⟩ | ⟨y, reaches, keyed, cycle⟩)
    · exact .of_reaches reaches keyed mem
    · obtain ⟨k, keyed⟩ := Option.isSome_iff_exists.mp keyed
      exact .of_cycle reaches keyed cycle

/-- A search that begins with nothing under guard is turned back exactly if it can reach a node with
a key that lies on a cycle. -/
theorem meets_nil_iff (injective : ∀ {x y k}, k ∈ key x → k ∈ key y → x = y) {x : α} :
    Meets step key [] x ↔ ∃ y, ReflTransGen step x y ∧ (key y).isSome ∧ TransGen step y y := by
  rw [meets_iff injective, or_iff_right]
  rintro ⟨y, -, k, -, mem⟩
  exact List.not_mem_nil mem

end TypedProps
