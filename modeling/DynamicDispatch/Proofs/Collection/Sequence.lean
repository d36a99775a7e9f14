import DynamicDispatch.Proofs.Collection.Lookup
import DynamicDispatch.Proofs.Currying.Dispatcher
import DynamicDispatch.Proofs.Value.Elements

/-!
# A collection as one sequence

A list, a text and a map each have their elements in one order, and everything that goes through them
goes in this order: the folds, the values gathered by one of them, the keys, the first element of what
is left after some were taken, and the iterator where there is one. Each of these is shown to agree with
the list of the elements, so that they agree with each other.
-/

namespace DynamicDispatch.Collection

variable {C S : Type} [Embedding C S] {w : World C S}

open DynamicDispatch.Action Value

/-- What is left of a collection when its first element has been taken away some number of times. -/
def restTimes : Nat → Value C → Action C S (Value C)
  | 0, xs => return xs
  | n + 1, xs => do restTimes n (← Generic.rest xs)

section Methods

/-- The methods by which lists, texts and maps alike are gone through. -/
def traversals : List Method := [.count, .get, .keys, .first, .rest, .empty, .foldl, .foldr]

omit [Embedding C S] in
/-- The standard registry has them from a collection's own family. -/
theorem provides_traversal (hw : w.registry.Standard) {xs : Value C} (hxs : xs.Ordered) {m : Method}
    (hm : m ∈ traversals) : w.registry.Provides xs.typeKey xs.family m := by
  have hmethods : ∀ family ∈ [Family.list, .text, .map], ∀ m ∈ traversals, m ∈ family.methods := by
    decide
  have hplain : xs.kind = .plain := by cases hxs <;> rfl
  refine hw.provides_family hplain (hmethods _ ?_ m hm)
  cases hxs <;> simp [family]

omit [Embedding C S] in
/-- A collection is looked into by its own family. -/
theorem lookupFamily?_ordered {xs : Value C} (hxs : xs.Ordered) :
    lookupFamily? xs = some xs.family := by
  cases hxs <;> rfl

/-- Called on a collection alone, such a method does what the family does. -/
theorem yields_traversal (hw : w.registry.Standard) {xs : Value C} (hxs : xs.Countable) {m : Method}
    (hm : m ∈ traversals) (harity : m.arity = 1) {r : Except Error (Value C)}
    (h : (xs.family.implementation m [xs]).Yields w r w) : (m.call [xs]).Yields w r w := by
  have hgiven : ∀ v ∈ [xs], v.isPlaceholder = false :=
    List.forall_mem_singleton.mpr hxs.isPlaceholder_eq
  exact Yields.method (provides_traversal hw hxs.ordered hm) harity.symm hgiven h

/-- A collection is counted. -/
theorem computes_count (hw : w.registry.Standard) {xs : Value C} (hxs : xs.Countable) :
    (Generic.count xs).Computes w (· = xs.elements.length) := by
  have hgiven : ∀ v ∈ [xs], v.isPlaceholder = false :=
    List.forall_mem_singleton.mpr hxs.isPlaceholder_eq
  have hcount : (Method.count.call [xs]).Computes w (· = Methods.countValue xs.elements.length) := by
    refine Computes.method (provides_traversal hw hxs.ordered (by decide)) rfl hgiven ?_
    cases hxs with
    | list _ => exact Computes.pure rfl
    | text _ | map _ _ =>
      rw [elements, List.length_map]
      exact Computes.pure rfl
  refine hcount.bind_eq ?_
  change (if (0 : Float) ≤ Number.ofCount xs.elements.length then
    pure (Number.toCount (Number.ofCount xs.elements.length)) else _ : Action C S Nat).Computes w _
  rw [if_pos (Number.zero_le_ofCount hxs.length_elements_lt)]
  exact Computes.pure (Number.toCount_ofCount hxs.length_elements_lt)

/-- The first element is given as a `Maybe`; of nothing, none. -/
theorem yields_first (hw : w.registry.Standard) {xs : Value C} (hxs : xs.Countable) :
    (Generic.first xs).Yields w (.ok (Maybe.of (xs.elements.head?.getD .nil))) w := by
  refine yields_traversal hw hxs (by decide) rfl ?_
  cases hxs with
  | @list items _ => cases items <;> exact yields_pure _ w
  | text _ | map _ _ =>
    rw [elements, List.head?_map]
    exact yields_pure _ w

/-- The rest of a collection is the collection without its first element. -/
theorem yields_rest (hw : w.registry.Standard) {xs : Value C} (hxs : xs.Countable) :
    (Generic.rest xs).Yields w (.ok (xs.dropped 1)) w := by
  refine yields_traversal hw hxs (by decide) rfl ?_
  cases hxs <;> exact yields_pure _ w

/-- The empty value of a collection is the collection without all its elements. -/
theorem yields_empty (hw : w.registry.Standard) {xs : Value C} (hxs : xs.Countable) :
    (Generic.empty xs).Yields w (.ok (xs.dropped xs.elements.length)) w := by
  refine yields_traversal hw hxs (by decide) rfl ?_
  cases hxs with
  | list _ =>
    rw [dropped, elements, List.drop_length]
    exact yields_pure _ w
  | text _ | map _ _ =>
    rw [dropped, elements, List.length_map, List.drop_length]
    exact yields_pure _ w

/-- Where a collection has an iterator, it gives the elements. -/
theorem yields_iterator (hw : w.registry.Standard) {xs : Value C} (hxs : xs.Countable)
    (hiterable : xs.isIterable = true) : (Generic.iterator xs).Yields w (.ok xs.elements) w := by
  have hlist : (Method.iterator.call [xs]).Yields w (.ok (.list xs.elements)) w := by
    have hgiven : ∀ v ∈ [xs], v.isPlaceholder = false :=
      List.forall_mem_singleton.mpr hxs.isPlaceholder_eq
    cases hxs with
    | list _ => exact Yields.method (hw .list .list .iterator rfl) rfl hgiven (yields_pure _ w)
    | text _ => exact Yields.method (hw .text .text .iterator rfl) rfl hgiven (yields_pure _ w)
    | map _ _ => cases hiterable
  exact hlist.bind (yields_pure _ w)

/-- Taking the rest some number of times leaves the collection without as many elements. -/
theorem yields_restTimes (hw : w.registry.Standard) {xs : Value C} (hxs : xs.Countable) (n : Nat) :
    (restTimes n xs).Yields w (.ok (xs.dropped n)) w := by
  induction n generalizing xs with
  | zero =>
    have hself : xs.dropped 0 = xs := by
      cases hxs <;> simp [dropped]
    rw [hself]
    exact yields_pure _ w
  | succ n ih =>
    have hmore := ih (hxs.dropped 1)
    rw [dropped_dropped, Nat.add_comm] at hmore
    exact (yields_rest hw hxs).bind hmore

/-- The key at a position gets the element there. -/
theorem yields_get_at (hw : w.registry.Standard) {xs : Value C} (hxs : xs.Countable) {i : Nat}
    {k v : Value C} (hk : xs.keys[i]? = some k) (hv : xs.elements[i]? = some v) :
    (Generic.get k xs).Yields w (.ok (Maybe.of v)) w := by
  have hstored : xs.storedUnder k = v := by
    rw [← hxs.map_storedUnder_keys, List.getElem?_map, hk] at hv
    exact Option.some.inj hv
  rw [← hstored]
  exact yields_get_of_provides (lookupFamily?_ordered hxs.ordered) (provides_traversal hw hxs.ordered (by decide))
    (isPlaceholder_key (List.mem_of_getElem? hk))

/-- So does the first element of what is left after as many have been taken. -/
theorem yields_first_at (hw : w.registry.Standard) {xs : Value C} (hxs : xs.Countable) {i : Nat}
    {v : Value C} (hv : xs.elements[i]? = some v) :
    (restTimes i xs >>= Generic.first).Yields w (.ok (Maybe.of v)) w := by
  have hfirst := yields_first hw (hxs.dropped i)
  rw [elements_dropped, List.head?_drop, hv] at hfirst
  exact (yields_restTimes hw hxs i).bind hfirst

end Methods

section Folds

omit [Embedding C S] in
/-- What a fold over a collection is called on has no holes. -/
theorem isPlaceholder_foldArguments {xs : Value C} (hxs : xs.Ordered) (f : Func C) {init : Value C}
    (hinit : init.isPlaceholder = false) : ∀ v ∈ [.func f, init, xs], v.isPlaceholder = false := by
  rw [List.forall_mem_cons, List.forall_mem_cons, List.forall_mem_singleton]
  exact ⟨rfl, hinit, hxs.isPlaceholder_eq⟩

/-- Folding from the right is seen as calls of the function on the elements from the last one on. -/
theorem shows_foldr_iff (hw : w.registry.Standard) {xs : Value C} (hxs : xs.Countable)
    {watch : Func C → Bool} (hwatch : ∀ g : Func C, g.implements .foldr = true → watch g = false)
    (f : Func C) {init : Value C} (hinit : init.isPlaceholder = false) (calls : List (SeenCall C))
    (r : Except Error (Value C)) (w' : World C S) :
    (Generic.foldr f init xs).Shows watch w calls r w' ↔
      (xs.elements.reverse.foldlM (fun acc v => call f [v, acc]) init).Shows watch w calls r w' := by
  rw [Generic.foldr, Method.shows_call_iff_of_provides hwatch
    (provides_traversal hw hxs.ordered (by decide)) rfl (isPlaceholder_foldArguments hxs.ordered f hinit)]
  cases hxs <;> exact Iff.rfl

/-- Values pushed one after the other come to stand behind those that are there. -/
theorem computes_push (id : Nat) (items acc : List (Value C)) :
    (Methods.fold ⟨id, "push", 2, .pushStep⟩ (.list acc) items).Computes w
      (· = .list (acc ++ items)) := by
  induction items generalizing acc with
  | nil => exact Computes.pure (congrArg Value.list (List.append_nil acc).symm)
  | cons v items ih =>
    have hstep : (call ⟨id, "push", 2, .pushStep⟩ [v, .list acc]).Computes w
        (· = .list (acc ++ [v])) := Computes.call (Computes.pure rfl)
    have hrest := ih (acc ++ [v])
    rw [List.append_assoc, List.singleton_append] at hrest
    rw [Methods.fold, List.foldlM_cons]
    exact hstep.bind_eq hrest

/-- The values of a collection are its elements. -/
theorem computes_vals (hw : w.registry.Standard) {xs : Value C} (hxs : xs.Ordered) :
    (vals xs).Computes w (· = .list xs.elements) := by
  refine Computes.newFunc_bind fun id => ?_
  refine Computes.method (provides_traversal hw hxs (by decide)) rfl
    (isPlaceholder_foldArguments hxs _ rfl) ?_
  have hpush := computes_push (w := w) id xs.elements []
  rw [List.nil_append] at hpush
  cases hxs <;> exact hpush

end Folds

/-- Every list, text and map is one sequence to all that go through it. Its values and its keys are as
many as are counted, and no two keys are equal. At each position the key gets the value there, and so does
the first element of what is left after as many were taken; when all were taken, what is left is the empty
value, of which there is no first element. The fold from the right is seen as the function called on the
values from the last one on, with the same calls, results and errors, by anyone who does not watch the
implementation of the fold itself. Where there is an iterator it gives the values. -/
theorem traversals_agree (hw : w.registry.Standard) {xs : Value C} (hxs : xs.Countable) :
    ((vals xs).Computes w (· = .list xs.elements) ∧
      (Generic.keys xs).Yields w (.ok (.list xs.keys)) w ∧
      (Generic.count xs).Computes w (· = xs.elements.length) ∧
      xs.keys.length = xs.elements.length ∧ xs.keys.Pairwise fun k l => equal k l = false) ∧
    (∀ i < xs.elements.length, ∃ k v, xs.keys[i]? = some k ∧ xs.elements[i]? = some v ∧
      (Generic.get k xs).Yields w (.ok (Maybe.of v)) w ∧
      (restTimes i xs >>= Generic.first).Yields w (.ok (Maybe.of v)) w) ∧
    (∃ rest, (restTimes xs.elements.length xs).Yields w (.ok rest) w ∧
      (Generic.empty xs).Yields w (.ok rest) w ∧
      (Generic.first rest).Yields w (.ok Maybe.none) w) ∧
    (∀ watch : Func C → Bool, (∀ g : Func C, g.implements .foldr = true → watch g = false) →
      ∀ (f : Func C) (init : Value C), init.isPlaceholder = false → ∀ calls r w',
        (Generic.foldr f init xs).Shows watch w calls r w' ↔
          (xs.elements.reverse.foldlM (fun acc v => call f [v, acc]) init).Shows watch w calls r w') ∧
    (xs.isIterable = true → (Generic.iterator xs).Yields w (.ok xs.elements) w) := by
  have hlength : xs.keys.length = xs.elements.length := by
    rw [← hxs.map_storedUnder_keys, List.length_map]
  refine ⟨⟨computes_vals hw hxs.ordered, ?_, computes_count hw hxs, hlength, hxs.pairwise_keys⟩, ?_, ?_, ?_,
    yields_iterator hw hxs⟩
  · exact yields_keys_of_provides (lookupFamily?_ordered hxs.ordered) (provides_traversal hw hxs.ordered (by decide))
  · intro i hi
    have hv := List.getElem?_eq_getElem hi
    have hk := List.getElem?_eq_getElem (hlength ▸ hi)
    exact ⟨_, _, hk, hv, yields_get_at hw hxs hk hv, yields_first_at hw hxs hv⟩
  · have hfirst := yields_first hw (hxs.dropped xs.elements.length)
    rw [elements_dropped, List.drop_length] at hfirst
    exact ⟨_, yields_restTimes hw hxs _, yields_empty hw hxs, hfirst⟩
  · intro watch hwatch f init hinit
    exact shows_foldr_iff hw hxs hwatch f hinit

/-- A text of two characters, the second one of two bytes, and a map whose first value is nil, at the
start: the map has two values, and no first one. -/
theorem traversals_agree_characters :
    let w : World Empty Unit := World.initial ()
    let push : Func Empty := ⟨0, "push", 2, .pushStep⟩
    let watch : Func Empty → Bool := fun g => !g.implements .foldr
    let xs : Value Empty := .text "aé"
    let fields : Value Empty := .map [("a", .nil), ("b", Maybe.none)]
    (vals xs).Computes w (· = .list [.text "a", .text "é"]) ∧
      (Generic.get (Methods.countValue 1) xs).Yields w (.ok (Maybe.some (.text "é"))) w ∧
      (Generic.foldr push (.list []) xs).Shows watch w
        [⟨push, [.text "é", .list []], .ok (.list [.text "é"])⟩,
          ⟨push, [.text "a", .list [.text "é"]], .ok (.list [.text "é", .text "a"])⟩]
        (.ok (.list [.text "é", .text "a"])) w ∧
      (Generic.count fields).Computes w (· = 2) ∧
      (restTimes 0 fields >>= Generic.first).Yields w (.ok Maybe.none) w := by
  intro w push watch xs fields
  have hw : w.registry.Standard := Registry.standard_standard firstFreeId
  have hxs : xs.Countable := .text (by decide)
  have hfields : fields.Countable := .map (by decide) (by decide)
  obtain ⟨⟨hvals, -⟩, hat, -, hfoldr, -⟩ := traversals_agree hw hxs
  obtain ⟨⟨-, -, hcount, -⟩, hfields, -⟩ := traversals_agree hw hfields
  refine ⟨hvals, ?_, ?_, hcount, ?_⟩
  · obtain ⟨k, v, hk, hv, hget, -⟩ := hat 1 (by decide)
    obtain rfl := Option.some.inj hk
    obtain rfl := Option.some.inj hv
    exact hget
  · exact (hfoldr watch (by simp [watch]) push (.list []) rfl _ _ _).mpr ⟨2, rfl⟩
  · obtain ⟨k, v, -, hv, -, hfirst⟩ := hfields 0 (by decide)
    obtain rfl := Option.some.inj hv
    exact hfirst

end DynamicDispatch.Collection
