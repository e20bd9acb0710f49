/-
  Results: a lemma on values that are computed or refused with an error.
-/

namespace PhpSharp

/-- A value that was changed was there. -/
theorem map_eq_ok {ε α β : Type} {f : α → β} {x : Except ε α} {b : β} (h : x.map f = .ok b) :
    ∃ a, x = .ok a ∧ f a = b := by
  match x, h with
  | .ok a, h => cases h; exact ⟨a, rfl, rfl⟩

end PhpSharp
