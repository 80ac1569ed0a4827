/-!
# `TypedProps.Proofs.Steps`: steps that change a state, and need not end

A step takes a state to a value and the next state, or to nothing. What steps do one after the other
is put together from what each of them does.
-/

set_option autoImplicit false

namespace TypedProps

/-- A step that has ended hands its value and its state on. -/
theorem bind_of_eq {σ α β : Type} {step : StateT σ Option α} {next : α → StateT σ Option β}
    {before after : σ} {a : α} (ended : step before = some (a, after)) :
    (step >>= next) before = next a after := by
  show (step before >>= fun x => next x.1 x.2) = _
  rw [ended]
  rfl

end TypedProps
