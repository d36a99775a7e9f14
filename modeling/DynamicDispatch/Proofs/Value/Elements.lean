import DynamicDispatch.Proofs.Value.View

/-!
# The elements of a collection

A list, a text or a map holds elements in an order. Those on which a predicate holds make up a
collection of the same type, in which they stand in the same order and under their keys.
-/

namespace DynamicDispatch.Value

variable {C : Type}

open Methods

/-- The values that a list, a text or a map holds, in order. -/
def elements : Value C → List (Value C)
  | .list items => items
  | .text s => s.toList.map charValue
  | .map entries => entries.map (·.2)
  | _ => []

/-- The list, text or map of the elements on which a predicate holds. -/
def selected (p : Value C → Bool) : Value C → Value C
  | .list items => .list (items.filter p)
  | .text s => .text (String.ofList (s.toList.filter fun c => p (charValue c)))
  | .map entries => .map (entries.filter fun e => p e.2)
  | v => v

/-- Lists, texts and sorted maps, of any size. -/
inductive Ordered : Value C → Prop
  | list (items : List (Value C)) : Ordered (.list items)
  | text (s : String) : Ordered (.text s)
  | map {entries : List (String × Value C)} (hsorted : Entries.Sorted entries) : Ordered (.map entries)

/-- None of them is a hole. -/
theorem Ordered.isPlaceholder_eq {v : Value C} (h : v.Ordered) : v.isPlaceholder = false := by
  cases h <;> rfl

/-- Lists, texts and sorted maps of no more elements than can be counted exactly. -/
inductive Countable : Value C → Prop
  | list {items : List (Value C)} (hlength : items.length < 2 ^ 53) : Countable (.list items)
  | text {s : String} (hlength : s.toList.length < 2 ^ 53) : Countable (.text s)
  | map {entries : List (String × Value C)} (hsorted : Entries.Sorted entries)
      (hlength : entries.length < 2 ^ 53) : Countable (.map entries)

/-- Its elements can be counted exactly. -/
theorem Countable.length_elements_lt {v : Value C} (h : v.Countable) :
    v.elements.length < 2 ^ 53 := by
  cases h with
  | list hlength => exact hlength
  | text hlength | map _ hlength => rwa [elements, List.length_map]

/-- Its elements stand in an order. -/
theorem Countable.ordered {v : Value C} (h : v.Countable) : v.Ordered := by
  cases h with
  | list _ => exact .list _
  | text _ => exact .text _
  | map hsorted _ => exact .map hsorted

/-- It is no hole. -/
theorem Countable.isPlaceholder_eq {v : Value C} (h : v.Countable) : v.isPlaceholder = false :=
  h.ordered.isPlaceholder_eq

/-- The elements of a selection are those on which the predicate holds. -/
theorem elements_selected (p : Value C → Bool) (v : Value C) :
    (v.selected p).elements = v.elements.filter p := by
  cases v with
  | text s => simp [selected, elements, List.filter_map, Function.comp_def]
  | map entries => simp [selected, elements, List.filter_map, Function.comp_def]
  | _ => rfl

/-- Selecting twice by one predicate is selecting once. -/
theorem selected_selected (p : Value C → Bool) (v : Value C) :
    (v.selected p).selected p = v.selected p := by
  cases v with
  | list _ | text _ | map _ => simp [selected]
  | _ => rfl

/-- A selection can be counted. -/
theorem Countable.selected {v : Value C} (h : v.Countable) (p : Value C → Bool) :
    (v.selected p).Countable := by
  cases h with
  | list hlength => exact .list (Nat.lt_of_le_of_lt (List.length_filter_le _ _) hlength)
  | text hlength =>
    refine .text ?_
    rw [String.toList_ofList]
    exact Nat.lt_of_le_of_lt (List.length_filter_le _ _) hlength
  | map hsorted hlength =>
    exact .map (hsorted.filter _) (Nat.lt_of_le_of_lt (List.length_filter_le _ _) hlength)

/-- A list, text or map without some of its first elements. -/
def dropped (n : Nat) : Value C → Value C
  | .list items => .list (items.drop n)
  | .text s => .text (String.ofList (s.toList.drop n))
  | .map entries => .map (entries.drop n)
  | v => v

/-- Its elements are the others. -/
theorem elements_dropped (n : Nat) (v : Value C) : (v.dropped n).elements = v.elements.drop n := by
  cases v with
  | text s => simp only [dropped, elements, String.toList_ofList, List.map_drop]
  | map entries => exact List.map_drop
  | list items => rfl
  | _ => exact List.drop_nil.symm

/-- What is stored in a list, text or map is one of its elements, and nothing else is found there. -/
theorem Ordered.storedUnder_eq_nil_or_mem {v : Value C} (h : v.Ordered) (key : Value C) :
    v.storedUnder key = .nil ∨ v.storedUnder key ∈ v.elements := by
  cases h with
  | list items =>
    cases hfound : (position? key).bind (items[·]?) with
    | none => simp [storedUnder, hfound]
    | some x =>
      obtain ⟨i, -, hi⟩ := Option.bind_eq_some_iff.mp hfound
      simpa [storedUnder, hfound] using .inr (List.mem_of_getElem? hi)
  | text s =>
    cases hfound : (position? key).bind (s.toList[·]?) with
    | none => simp [storedUnder, hfound]
    | some c =>
      obtain ⟨i, -, hi⟩ := Option.bind_eq_some_iff.mp hfound
      simpa [storedUnder, hfound, elements] using .inr ⟨c, List.mem_of_getElem? hi, rfl⟩
  | @map entries _ =>
    rw [storedUnder]
    cases mapKey .get key with
    | error _ => exact .inl rfl
    | ok name =>
      cases hfound : Entries.find? name entries with
      | none => simp [hfound]
      | some x => simpa [hfound, elements] using .inr ⟨name, Entries.mem_of_find?_eq_some hfound⟩

/-- Elements are left out one after the other or at once. -/
theorem dropped_dropped (m n : Nat) (v : Value C) : (v.dropped m).dropped n = v.dropped (m + n) := by
  cases v with
  | list _ | text _ | map _ => simp only [dropped, String.toList_ofList, List.drop_drop]
  | _ => rfl

/-- What is left can be counted. -/
theorem Countable.dropped {v : Value C} (h : v.Countable) (n : Nat) : (v.dropped n).Countable := by
  cases h with
  | list hlength => exact .list (Nat.lt_of_le_of_lt (List.drop_sublist n _).length_le hlength)
  | text hlength =>
    refine .text ?_
    rw [String.toList_ofList]
    exact Nat.lt_of_le_of_lt (List.drop_sublist n _).length_le hlength
  | map hsorted hlength =>
    exact .map (hsorted.sublist (List.drop_sublist n _))
      (Nat.lt_of_le_of_lt (List.drop_sublist n _).length_le hlength)

/-- The elements are what is stored under the keys, in order. -/
theorem Countable.map_storedUnder_keys {v : Value C} (h : v.Countable) :
    v.keys.map v.storedUnder = v.elements := by
  cases h with
  | list hlength => exact map_storedUnder_list (addressable_of_le (Nat.le_of_lt hlength))
  | text hlength => exact map_storedUnder_text (addressable_of_le (Nat.le_of_lt hlength))
  | @map entries hsorted _ =>
    have hread := congrArg (List.map Prod.snd) (hsorted.map_eq_map_find? id .nil)
    rw [List.map_map, List.map_map] at hread
    rw [keys, List.map_map]
    exact hread.symm

/-- No two keys are equal. -/
theorem Countable.pairwise_keys {v : Value C} (h : v.Countable) :
    v.keys.Pairwise fun k l => equal k l = false := by
  have hpositions : ∀ length, length < 2 ^ 53 →
      (positionKeys (C := C) length).Pairwise fun k l => equal k l = false := by
    intro length hlength
    refine List.pairwise_map.mpr (List.pairwise_lt_range.imp_of_mem fun {i j} hi hj hlt => ?_)
    have haddressed : ∀ {n}, n ∈ List.range length → Number.position? (Number.ofCount n) = some n :=
      fun hn => addressable_of_le (Nat.le_of_lt hlength) _ (List.mem_range.mp hn)
    rw [← Bool.not_eq_true]
    intro hequal
    have hsame := Number.position?_eq_of_beq hequal
    rw [haddressed hi, haddressed hj] at hsame
    exact Nat.ne_of_lt hlt (Option.some.inj hsame)
  cases h with
  | list hlength | text hlength => exact hpositions _ hlength
  | map hsorted _ =>
    refine List.pairwise_map.mpr (hsorted.keys.imp fun {k l} hlt => ?_)
    rw [equal, beq_eq_false_iff_ne]
    exact String.ne_of_lt hlt

/-- What a look-up shows of a collection can be counted. -/
theorem Countable.shallowView {v : Value C} (h : v.Countable) : v.shallowView.Countable := by
  cases h with
  | list hlength => exact .list (by rwa [List.length_map])
  | text hlength => exact .text hlength
  | map hsorted hlength =>
    exact .map (List.pairwise_map.mpr hsorted) (by rwa [List.length_map])

/-- A look-up shows as many elements as there are. -/
theorem Countable.length_elements_shallowView {v : Value C} (h : v.Countable) :
    v.shallowView.elements.length = v.elements.length := by
  cases h with
  | list _ | map _ _ => simp [Value.shallowView, mapStored, elements]
  | text _ => rfl

/-- A value comes out of a look-up as it is exactly when it is no `Maybe`. -/
theorem unwrapped_eq_self_iff {v : Value C} :
    v.unwrapped = v ↔ UnionType.maybe.contains v = false := by
  refine ⟨fun h => ?_, unwrapped_eq_self⟩
  rw [← Bool.not_eq_true]
  intro hmaybe
  have hlt := sizeOf_unwrapped_lt hmaybe
  rw [h] at hlt
  exact Nat.lt_irrefl _ hlt

/-- A function that is applied throughout a list leaves it exactly when it leaves its members. -/
theorem map_eq_self_iff {A : Type} {f : A → A} {xs : List A} :
    xs.map f = xs ↔ ∀ x ∈ xs, f x = x := by
  simpa using List.map_inj_left (l := xs) (f := f) (g := id)

/-- A look-up shows a collection as it is exactly when it holds no `Maybe`. -/
theorem Countable.shallowView_eq_self_iff {v : Value C} (h : v.Countable) :
    v.shallowView = v ↔ ∀ x ∈ v.elements, UnionType.maybe.contains x = false := by
  simp only [← unwrapped_eq_self_iff]
  cases h with
  | list _ => simp only [Value.shallowView, mapStored, elements, Value.list.injEq, map_eq_self_iff]
  | @text s _ =>
    have hchars : ∀ x ∈ elements (C := C) (.text s), x.unwrapped = x := by
      simp [elements, charValue, unwrapped]
    exact ⟨fun _ => hchars, fun _ => rfl⟩
  | map _ _ =>
    simp only [Value.shallowView, mapStored, elements, Value.map.injEq, map_eq_self_iff,
      List.forall_mem_map, Prod.ext_iff, true_and]

end DynamicDispatch.Value
