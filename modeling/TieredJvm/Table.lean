/-!
# Tables

A finite map as the list of its pairs, in the order in which the keys were first written. A key is
written in place once it is there, so no key occurs twice.
-/

namespace TieredJvm

/-- A finite map from `κ` to `α`. -/
structure Table (κ α : Type) where
  /-- The pairs, in the order in which their keys were first written. -/
  pairs : List (κ × α) := []

namespace Table

variable {κ α : Type} [DecidableEq κ]

/-- The value written under a key last. -/
def get? (t : Table κ α) (key : κ) : Option α :=
  (t.pairs.find? (·.1 = key)).map (·.2)

/-- The pairs with the value under a key replaced, or added at the end. -/
def setPairs (key : κ) (value : α) : List (κ × α) → List (κ × α)
  | [] => [(key, value)]
  | (k, v) :: rest => if k = key then (k, value) :: rest else (k, v) :: setPairs key value rest

/-- Writes a value under a key. -/
def set (t : Table κ α) (key : κ) (value : α) : Table κ α :=
  ⟨setPairs key value t.pairs⟩

@[simp] theorem get?_empty (key : κ) : get? (⟨[]⟩ : Table κ α) key = none := rfl

/-- What was written last is read back. -/
@[simp] theorem get?_set_self (t : Table κ α) (key : κ) (value : α) :
    (t.set key value).get? key = some value := by
  obtain ⟨pairs⟩ := t
  induction pairs with
  | nil => simp [set, setPairs, get?]
  | cons p rest ih =>
    by_cases h : p.1 = key <;> simp_all [set, setPairs, get?]

/-- Writing under one key changes nothing under another. -/
theorem get?_set_of_ne (t : Table κ α) {key other : κ} (value : α) (h : other ≠ key) :
    (t.set key value).get? other = t.get? other := by
  obtain ⟨pairs⟩ := t
  induction pairs with
  | nil => simp [set, setPairs, get?, h.symm]
  | cons p rest ih =>
    simp only [set, get?] at ih
    by_cases hk : p.1 = key
    · simp [set, setPairs, get?, hk, h.symm]
    · by_cases ho : p.1 = other
      · simp [set, setPairs, get?, ho, h]
      · simpa [set, setPairs, get?, hk, ho] using ih

end Table

end TieredJvm
