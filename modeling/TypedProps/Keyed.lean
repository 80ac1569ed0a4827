/-!
# `TypedProps.Keyed`: lists of values under keys

A list of pairs serves as a finite map that remembers in which order its keys were put in. Putting a
value under a key that is there replaces the value and leaves the key in its place.
-/

set_option autoImplicit false

namespace TypedProps.Keyed

variable {κ ν : Type} [BEq κ]

/-- Puts a value under a key: in the place of the key, or at the end. -/
def put (key : κ) (value : ν) : List (κ × ν) → List (κ × ν)
  | [] => [(key, value)]
  | (k, v) :: rest => if k == key then (k, value) :: rest else (k, v) :: put key value rest

@[simp] theorem put_nil (key : κ) (value : ν) : put key value [] = [(key, value)] := rfl

/-- What is put under a key is found there. -/
theorem lookup_put_self [LawfulBEq κ] (key : κ) (value : ν) (pairs : List (κ × ν)) :
    (put key value pairs).lookup key = some value := by
  induction pairs with
  | nil => simp
  | cons pair rest ih =>
    obtain ⟨k, v⟩ := pair
    by_cases h : k == key
    · have : key = k := (eq_of_beq h).symm
      subst this
      simp [put]
    · have : (key == k) = false := by
        rw [Bool.eq_false_iff]
        exact fun e => h (by rw [eq_of_beq e]; exact beq_self_eq_true k)
      simp [put, h, List.lookup_cons, this, ih]

/-- What stands under other keys stays. -/
theorem lookup_put_of_ne [LawfulBEq κ] {key other : κ} (ne : other ≠ key) (value : ν)
    (pairs : List (κ × ν)) : (put key value pairs).lookup other = pairs.lookup other := by
  have unequal : (other == key) = false := beq_eq_false_iff_ne.mpr ne
  induction pairs with
  | nil => simp [List.lookup_cons, unequal]
  | cons pair rest ih =>
    obtain ⟨k, v⟩ := pair
    by_cases h : k == key
    · have : k = key := eq_of_beq h
      subst this
      simp [put, List.lookup_cons, unequal]
    · by_cases o : other == k <;> simp [put, h, List.lookup_cons, o, ih]

end TypedProps.Keyed
