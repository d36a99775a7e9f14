/-!
# Tables

A finite assignment of values to keys in which a later entry replaces an earlier one of its key.
`get?` is the view, and `insert` is known by what it does to the view.
-/

namespace DynamicDispatch

/-- A finite assignment of values to keys, newest entry first. -/
structure Table (K V : Type) where
  entries : List (K × V) := []

namespace Table

variable {K V : Type}

/-- The table without entries. -/
def empty : Table K V := ⟨[]⟩

variable [DecidableEq K]

/-- The value under a key. -/
def get? (t : Table K V) (key : K) : Option V := (t.entries.find? (·.1 = key)).map (·.2)

/-- The table with a value put under a key. -/
def insert (t : Table K V) (key : K) (value : V) : Table K V := ⟨(key, value) :: t.entries⟩

@[simp]
theorem get?_empty (key : K) : (empty : Table K V).get? key = none := rfl

@[simp]
theorem get?_insert_self (t : Table K V) (key : K) (value : V) :
    (t.insert key value).get? key = some value := by
  simp [get?, insert]

theorem get?_insert (t : Table K V) (key other : K) (value : V) :
    (t.insert key value).get? other = if key = other then some value else t.get? other := by
  by_cases h : key = other <;> simp [get?, insert, h]

end Table

end DynamicDispatch
