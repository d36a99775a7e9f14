/-!
# The entries of a map

A map is the list of its entries in ascending order of their keys, so that equal maps are equal
lists. Keys are ordered by their characters' code points. `find?` is the view through which the
operations are understood.
-/

namespace DynamicDispatch.Entries

variable {V : Type}

/-- The value under a key. -/
def find? (key : String) : List (String × V) → Option V
  | [] => none
  | (k, v) :: rest => if k = key then some v else find? key rest

/-- The entries with a value put under a key. -/
def insert (key : String) (value : V) : List (String × V) → List (String × V)
  | [] => [(key, value)]
  | (k, v) :: rest =>
    if key < k then (key, value) :: (k, v) :: rest
    else if k = key then (key, value) :: rest
    else (k, v) :: insert key value rest

/-- The entries without a key. -/
def erase (key : String) (entries : List (String × V)) : List (String × V) :=
  entries.filter (·.1 ≠ key)

/-- The entries put in one after the other, a later one in place of an earlier one of its key. -/
def ofList (pairs : List (String × V)) : List (String × V) :=
  pairs.foldl (fun entries (k, v) => insert k v entries) []

/-- The entries of two maps. Of the values under a shared key the one of the larger map stays, and
of two maps of one size the one of the first. -/
def union (first second : List (String × V)) : List (String × V) :=
  if second.length ≤ first.length then first.foldl (fun entries (k, v) => insert k v entries) second
  else second.foldl (fun entries (k, v) => insert k v entries) first

/-- Whether the keys ascend strictly. -/
def Sorted (entries : List (String × V)) : Prop := entries.Pairwise fun a b => a.1 < b.1

end DynamicDispatch.Entries
