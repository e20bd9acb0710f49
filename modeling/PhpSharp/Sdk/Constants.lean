/-
  Constants in declaration order, each name once.
-/

namespace PhpSharp.Sdk

/-- Names with values, in the order of their declaration; no name occurs twice. -/
structure Constants where
  entries : List (String × String) := []
  nodup : (entries.map Prod.fst).Nodup := by simp
  deriving Repr

namespace Constants

@[ext] theorem ext {c d : Constants} (h : c.entries = d.entries) : c = d := by
  cases c; cases d; cases h; rfl

instance : DecidableEq Constants := fun c d =>
  if h : c.entries = d.entries then .isTrue (ext h) else .isFalse fun e => h (e ▸ rfl)

/-- No constants. -/
def empty : Constants := {}

/-- The names in order. -/
def names (c : Constants) : List String := c.entries.map Prod.fst

/-- The number of constants. -/
def size (c : Constants) : Nat := c.entries.length

/-- Whether a constant has the name. -/
def contains (c : Constants) (name : String) : Bool := c.names.contains name

/-- The value of a constant. -/
def get? (c : Constants) (name : String) : Option String := c.entries.lookup name

/-- The constants with one more at the end, unless the name is taken. -/
def insert? (c : Constants) (name value : String) : Option Constants :=
  if h : name ∈ c.names then none
  else some {
    entries := c.entries ++ [(name, value)]
    nodup := by
      rw [List.map_append, List.nodup_append]
      exact ⟨c.nodup, by simp, by rintro a ha b hb rfl; simp at hb; exact h (hb ▸ ha)⟩ }

/-- Insertion fails exactly for a name that is taken. -/
theorem insert?_eq_none_iff {c : Constants} {name value : String} :
    c.insert? name value = none ↔ name ∈ c.names := by
  unfold insert?
  split <;> simp [*]

theorem entries_of_insert? {c d : Constants} {name value : String}
    (h : c.insert? name value = some d) : d.entries = c.entries ++ [(name, value)] := by
  unfold insert? at h
  split at h
  · simp at h
  · cases h; rfl

end Constants

end PhpSharp.Sdk
