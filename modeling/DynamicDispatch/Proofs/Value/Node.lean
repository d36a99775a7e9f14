import DynamicDispatch.Proofs.Value.Stored

/-!
# Maps and lists as the nodes of a tree

A map is written at any text or number, a list at a position that it has. What is written is read back
under every key that addresses the same entry, what stands elsewhere stays, and a second write takes
the place of the first.
-/

namespace DynamicDispatch.Value

variable {C : Type}

open Methods

/-- The text by which a key addresses an entry of a map. -/
def entryName? : Value C → Option String
  | .text s => some s
  | .number x => some (Number.plain x)
  | _ => none

/-- Whether a value is a key of paths: a text or a number. -/
def isPathKey (key : Value C) : Bool := key.entryName?.isSome

/-- A key of paths addresses an entry by its text, whatever the method. -/
theorem mapKey_eq_ok {key : Value C} {name : String} (h : key.entryName? = some name) (m : Method) :
    mapKey m key = .ok name := by
  cases key with
  | text _ | number _ =>
    obtain rfl := Option.some.inj h
    rfl
  | _ => cases h

/-- What a map stores under a key is found by the text of the key. -/
theorem storedUnder_map (entries : List (String × Value C)) (key : Value C) :
    storedUnder (.map entries) key =
      (key.entryName?.bind fun name => Entries.find? name entries).getD .nil := by
  cases key <;> rfl

/-- A key of paths is no hole. -/
theorem isPlaceholder_of_isPathKey {key : Value C} (h : key.isPathKey = true) :
    key.isPlaceholder = false := by
  cases key <;> first | rfl | cases h

/-- Whether a value is a map or a list. -/
def isNode : Value C → Bool
  | .map _ | .list _ => true
  | _ => false

/-- A node is no hole. -/
theorem isPlaceholder_of_isNode {node : Value C} (h : node.isNode = true) :
    node.isPlaceholder = false := by
  cases node <;> first | rfl | cases h

/-- A node can be written at a key: a map at any key of paths, a list at a position that it has. -/
inductive Takes : Value C → Value C → Prop
  | entry {entries : List (String × Value C)} {key : Value C} {name : String}
      (name_eq : key.entryName? = some name) : Takes (.map entries) key
  | position {items : List (Value C)} {key : Value C} {i : Nat} (position_eq : position? key = some i)
      (lt_length : i < items.length) : Takes (.list items) key

/-- A map can be written at every key of paths. -/
theorem takes_map {key : Value C} (h : key.isPathKey = true) (entries : List (String × Value C)) :
    Takes (.map entries) key := by
  obtain ⟨name, hname⟩ := Option.isSome_iff_exists.mp h
  exact .entry hname

/-- Whether two keys address the same entry of a node. -/
def SameEntry (node key key' : Value C) : Prop :=
  match node with
  | .map _ => key.entryName? = key'.entryName?
  | .list _ => position? key = position? key'
  | _ => False

/-- A key addresses the same entry as itself. -/
theorem SameEntry.refl {node : Value C} (h : node.isNode = true) (key : Value C) :
    SameEntry node key key := by
  cases node <;> first | rfl | cases h

/-- A node with a value put at a key. -/
def put (key value : Value C) : Value C → Value C
  | .map entries =>
    .map ((key.entryName?.map fun name => Entries.insert name value entries).getD entries)
  | .list items => .list (((position? key).map fun i => items.set i value).getD items)
  | v => v

/-- A map without the entry that a key addresses. -/
def without (key : Value C) : Value C → Value C
  | .map entries =>
    .map ((key.entryName?.map fun name => Entries.erase name entries).getD entries)
  | v => v

/-- What is written is a map or a list. -/
theorem Takes.isNode {node key : Value C} (h : Takes node key) : node.isNode = true := by
  cases h <;> rfl

/-- What is written is written at a key of paths. -/
theorem Takes.isPathKey {node key : Value C} (h : Takes node key) : key.isPathKey = true := by
  cases h with
  | entry name_eq => exact Option.isSome_iff_exists.mpr ⟨_, name_eq⟩
  | position position_eq _ =>
    cases key with
    | number _ => rfl
    | _ => cases position_eq

/-- A node that has been written is a node. -/
@[simp]
theorem isNode_put (key value node : Value C) : (put key value node).isNode = node.isNode := by
  cases node <;> rfl

/-- Writing a node leaves what its keys address. -/
theorem sameEntry_put {key value node : Value C} {key₁ key₂ : Value C} :
    SameEntry (put key value node) key₁ key₂ ↔ SameEntry node key₁ key₂ := by
  cases node <;> rfl

/-- A node that has been written can be written again. -/
theorem Takes.put {node key : Value C} (h : Takes node key) (key' value : Value C) :
    Takes (Value.put key' value node) key := by
  cases h with
  | entry name_eq => exact .entry name_eq
  | @position items _ i position_eq lt_length =>
    refine .position position_eq ?_
    cases position? key' with
    | none => exact lt_length
    | some j => simpa using lt_length

/-- Under keys for the same entry the same is stored. -/
theorem storedUnder_eq_of_sameEntry {node key key' : Value C} (h : SameEntry node key key') :
    node.storedUnder key' = node.storedUnder key := by
  cases node with
  | map entries =>
    have hname : key.entryName? = key'.entryName? := h
    rw [storedUnder_map, storedUnder_map, hname]
  | list items =>
    have hposition : position? key = position? key' := h
    rw [storedUnder, storedUnder, hposition]
  | _ => exact h.elim

/-- What is written is read back. -/
theorem storedUnder_put {node key : Value C} (h : Takes node key) (value : Value C) :
    (put key value node).storedUnder key = value := by
  cases h with
  | entry name_eq => simp [put, storedUnder_map, name_eq, Entries.find?_insert_self]
  | position position_eq lt_length => simp [put, storedUnder, position_eq, lt_length]

/-- What stands elsewhere stays. -/
theorem storedUnder_put_of_not_same {node key key' : Value C} (hother : ¬ SameEntry node key key')
    (value : Value C) : (put key value node).storedUnder key' = node.storedUnder key' := by
  cases node with
  | map entries =>
    have hname : key.entryName? ≠ key'.entryName? := hother
    rw [put, storedUnder_map, storedUnder_map]
    cases hkey : key.entryName? with
    | none => rfl
    | some name =>
      cases hkey' : key'.entryName? with
      | none => rfl
      | some name' =>
        have hne : name ≠ name' := fun heq => hname (by rw [hkey, hkey', heq])
        simp [Entries.find?_insert_of_ne hne]
  | list items =>
    have hposition : position? key ≠ position? key' := hother
    rw [put, storedUnder, storedUnder]
    cases hkey : position? key with
    | none => rfl
    | some i =>
      cases hkey' : position? key' with
      | none => rfl
      | some i' =>
        have hne : i ≠ i' := fun heq => hposition (by rw [hkey, hkey', heq])
        simp [List.getElem?_set_ne hne]
  | _ => rfl

/-- A second write takes the place of the first. -/
theorem put_put {node key : Value C} (value value' : Value C) :
    put key value' (put key value node) = put key value' node := by
  cases node with
  | map entries => cases hname : key.entryName? <;> simp [put, hname, Entries.insert_insert]
  | list items => cases hposition : position? key <;> simp [put, hposition]
  | _ => rfl

/-- What a key of paths has taken out of a map is no longer stored there. -/
theorem storedUnder_without {key : Value C} (h : key.isPathKey = true)
    (entries : List (String × Value C)) : (without key (.map entries)).storedUnder key = .nil := by
  obtain ⟨name, hname⟩ := Option.isSome_iff_exists.mp h
  simp [without, storedUnder_map, hname, Entries.find?_erase_self]

/-- What stands elsewhere stays. -/
theorem storedUnder_without_of_not_same {key key' : Value C} {entries : List (String × Value C)}
    (hother : ¬ SameEntry (.map entries) key key') :
    (without key (.map entries)).storedUnder key' = storedUnder (.map entries) key' := by
  have hname : key.entryName? ≠ key'.entryName? := hother
  rw [without, storedUnder_map, storedUnder_map]
  cases hkey : key.entryName? with
  | none => rfl
  | some name =>
    cases hkey' : key'.entryName? with
    | none => rfl
    | some name' =>
      have hne : name ≠ name' := fun heq => hname (by rw [hkey, hkey', heq])
      simp [Entries.find?_erase_of_ne hne]

/-- What was written and taken out might as well not have been written. -/
theorem without_put (key value : Value C) (entries : List (String × Value C)) :
    without key (put key value (.map entries)) = without key (.map entries) := by
  cases hname : key.entryName? <;> simp [without, put, hname, Entries.erase_insert]

/-- Taking out twice is taking out once. -/
theorem without_without (key : Value C) (entries : List (String × Value C)) :
    without key (without key (.map entries)) = without key (.map entries) := by
  cases hname : key.entryName? <;> simp [without, hname, Entries.erase_erase]

/-- Writing to a sorted map what is stored there, when it is not nil, changes nothing. -/
theorem put_storedUnder {entries : List (String × Value C)} (h : Entries.Sorted entries) {key : Value C}
    (hstored : storedUnder (.map entries) key ≠ .nil) :
    put key (storedUnder (.map entries) key) (.map entries) = .map entries := by
  rw [storedUnder_map] at hstored ⊢
  cases hname : key.entryName? with
  | none => simp [hname] at hstored
  | some name =>
    cases hfound : Entries.find? name entries with
    | none => simp [hname, hfound] at hstored
    | some v => simp [put, hname, hfound, h.insert_eq_self hfound]

end DynamicDispatch.Value
