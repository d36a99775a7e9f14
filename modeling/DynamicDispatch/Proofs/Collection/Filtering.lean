import DynamicDispatch.Proofs.Collection.Pouring

/-!
# Filtering collections

A collection is filtered by going through its keys and building a collection of the same type from the
entries that are kept. An entry is read by a look-up, so a stored `Maybe` is seen, and kept, as what is
inside it. The quantifiers read the elements themselves. Where no `Maybe` is stored the two agree.
-/

namespace DynamicDispatch.Collection

variable {C S : Type} [Embedding C S] {w : World C S}

open DynamicDispatch.Action Value

omit [Embedding C S] in
/-- The pairs of a collection whose values a predicate holds on, poured into an empty one, are the
selection of what a look-up shows of it. -/
theorem poured_filter_pairs {xs : Value C} (hxs : xs.Countable) (q : Value C → Bool) :
    poured (((pairs xs).filter fun e => q e.2).map (entryOf xs)) (emptied xs) =
      xs.shallowView.selected q := by
  have hvalues : ((pairs xs).filter fun e => q e.2).map (·.2) = (xs.elements.map unwrapped).filter q := by
    have hread : (pairs xs).map (·.2) = xs.elements.map unwrapped := by
      rw [pairs, List.map_map, ← hxs.map_storedUnder_keys, List.map_map]
      rfl
    rw [← hread, List.filter_map]
    rfl
  cases hxs with
  | @list items _ =>
    have hpoured := poured_list ((items.map unwrapped).filter q) []
    rw [List.nil_append] at hpoured
    exact (congrArg (poured · (.list [])) hvalues).trans hpoured
  | @text s _ =>
    have hpoured := poured_text (C := C) (s.toList.filter fun c => q (Methods.charValue c)) ""
    have hchars : (s.toList.map (Methods.charValue (C := C))).map unwrapped =
        s.toList.map Methods.charValue := List.map_map
    rw [elements, hchars, List.filter_map] at hvalues
    rw [String.empty_append] at hpoured
    exact (congrArg (poured · (.text "")) hvalues).trans hpoured
  | @map entries hsorted _ =>
    have hseen : Entries.Sorted (entries.map fun e => (e.1, e.2.unwrapped)) :=
      List.pairwise_map.mpr hsorted
    have hkept : Entries.Sorted ((entries.map fun e => (e.1, e.2.unwrapped)).filter fun e => q e.2) :=
      hseen.filter _
    have hpoured := poured_map ((entries.map fun e => (e.1, e.2.unwrapped)).filter fun e => q e.2) []
    rw [hkept.putAll_nil] at hpoured
    rw [pairs_map hsorted, List.filter_map, List.map_map]
    exact hpoured

/-- A function that decides on values selects the pairs whose values it holds on, or does not hold
on. -/
theorem computes_selecting {f : Func C} {p : Value C → Bool}
    (hf : ∀ k v, (call f [k, v]).Computes w fun r => r.truthy = p v) (keep : Bool)
    (items : List (Value C × Value C)) :
    (selecting f keep items).Computes w (· = items.filter fun e => p e.2 == keep) := by
  induction items with
  | nil => exact Computes.pure rfl
  | cons e items ih =>
    refine (hf e.1 e.2).bind fun r hr => ih.bind_eq (Computes.pure ?_)
    rw [hr, List.filter_cons]

/-- Such a function filters by the values that a look-up shows. -/
theorem computes_keepKv (hw : w.registry.Standard) {xs : Value C} (hxs : xs.Countable)
    (hholes : ∀ x ∈ xs.elements, x.unwrapped.isPlaceholder = false) {f : Func C} {p : Value C → Bool}
    (hf : ∀ k v, (call f [k, v]).Computes w fun r => r.truthy = p v) (keep : Bool) :
    (keepKv f keep xs).Computes w (· = xs.shallowView.selected fun v => p v == keep) := by
  have hstandard : ∀ w' : World C S, (∃ n, w' = w.minted n) → w'.registry.Standard := by
    rintro _ ⟨n, rfl⟩
    exact hw
  have hleaves : ∀ k v, (call f [k, v]).Leaves (fun _ => false) (fun w' => ∃ n, w' = w.minted n)
      fun _ => True := fun k v => (Leaves.of_computes (hf k v)).mono fun _ _ => trivial
  have hagree := agreeOn_keepKv hstandard hxs.ordered keep hleaves (fun _ _ _ _ => rfl) hholes
  rw [← poured_filter_pairs hxs]
  exact hagree.computes ((computes_selecting hf keep (pairs xs)).bind_eq (Computes.pure rfl))

/-- Filtering computes the selection of what a look-up shows. -/
theorem computes_filter (hw : w.registry.Standard) {xs : Value C} (hxs : xs.Countable)
    (hholes : ∀ x ∈ xs.elements, x.unwrapped.isPlaceholder = false) {f : Func C} {p : Value C → Bool}
    (hf : f.Decides w p) :
    (filter f xs).Computes w (· = xs.shallowView.selected p) ∧
      (remove f xs).Computes w (· = xs.shallowView.selected fun v => !p v) := by
  have hvalue : ∀ id k v, (call ⟨id, f.name, 2, .onValue f⟩ [k, v]).Computes w
      fun r => r.truthy = p v :=
    fun _ _ v => Computes.call (hf v)
  have hkept := fun id => computes_keepKv hw hxs hholes (hvalue id) true
  have hremoved := fun id => computes_keepKv hw hxs hholes (hvalue id) false
  simp only [beq_true] at hkept
  simp only [beq_false] at hremoved
  exact ⟨Computes.newFunc_bind hkept, Computes.newFunc_bind hremoved⟩

/-- The fold that looks for an element finds whether there is one. -/
theorem foldl_any (p : Value C → Bool) (xs : List (Value C)) (b : Bool) :
    xs.foldl (fun acc v => .bool (acc.truthy || p v)) (.bool b : Value C) = .bool (b || xs.any p) := by
  induction xs generalizing b with
  | nil => simp
  | cons x xs ih =>
    rw [List.foldl_cons, ih, List.any_cons, truthy_bool, Bool.or_assoc]

/-- Whether a function holds on some element is computed from the elements as they are. -/
theorem computes_any (hw : w.registry.Standard) {xs : Value C} (hxs : xs.Countable) {f : Func C}
    {p : Value C → Bool} (hf : f.Decides w p) : (any f xs).Computes w (· = xs.elements.any p) := by
  refine Computes.newFunc_bind fun id => ?_
  have hstep : ∀ acc v, (call ⟨id, "any", 2, .anyStep f⟩ [v, acc]).Computes w
      (· = .bool (acc.truthy || p v)) := by
    intro acc v
    have hacc : argument [v, acc] 1 = acc := rfl
    refine Computes.call ?_
    change (anyStep f [v, acc]).Computes w _
    rw [anyStep, hacc]
    cases acc.truthy with
    | true => exact Computes.pure rfl
    | false => exact (hf v).bind fun r hr => Computes.pure (congrArg Value.bool hr)
  have hfold : (Methods.fold ⟨id, "any", 2, .anyStep f⟩ (.bool false) xs.elements).Computes w
      (· = .bool (xs.elements.any p)) := by
    have hfold := Computes.foldlM (fun acc v (_ : v ∈ xs.elements) => hstep acc v) (.bool false)
    rwa [foldl_any] at hfold
  have hmethod : (Generic.foldl ⟨id, "any", 2, .anyStep f⟩ (.bool false) xs).Computes w
      (· = .bool (xs.elements.any p)) := by
    refine Computes.method (provides_traversal hw hxs.ordered (by decide)) rfl
      (isPlaceholder_foldArguments hxs.ordered _ rfl) ?_
    cases hxs <;> exact hfold
  exact hmethod.bind_eq (Computes.pure (truthy_bool _))

/-- Where no `Maybe` is stored in a list, text or map, filtering gives a collection of the same type of
exactly the elements on which the function holds, in order and under their keys, and removing gives the
others. Filtering again changes nothing, and something is kept exactly when the function holds on some
element. In general filtering does this with what a look-up shows of the collection, which is the
collection itself exactly where no `Maybe` is stored. What is kept and what is removed make up the count
in any case, and whether the function holds on some element is asked of the elements themselves. -/
theorem filter_selects (hw : w.registry.Standard) {xs : Value C} (hxs : xs.Countable)
    (hholes : ∀ x ∈ xs.elements, x.unwrapped.isPlaceholder = false) {f : Func C} {p : Value C → Bool}
    (hf : f.Decides w p) :
    ((∀ x ∈ xs.elements, UnionType.maybe.contains x = false) →
      (filter f xs).Computes w (· = xs.selected p) ∧
      (remove f xs).Computes w (· = xs.selected fun v => !p v) ∧
      (filter f xs >>= filter f).Computes w (· = xs.selected p) ∧
      ∃ found, (any f xs).Computes w (· = found) ∧
        (found = true ↔ (xs.selected p).elements ≠ [])) ∧
    ((filter f xs).Computes w (· = xs.shallowView.selected p) ∧
      (remove f xs).Computes w (· = xs.shallowView.selected fun v => !p v) ∧
      (xs.shallowView = xs ↔ ∀ x ∈ xs.elements, UnionType.maybe.contains x = false)) ∧
    (∃ kept removed, (filter f xs >>= Generic.count).Computes w (· = kept) ∧
      (remove f xs >>= Generic.count).Computes w (· = removed) ∧
      (Generic.count xs).Computes w (· = kept + removed)) ∧
    (any f xs).Computes w (· = xs.elements.any p) := by
  obtain ⟨hfilter, hremove⟩ := computes_filter hw hxs hholes hf
  have hany := computes_any hw hxs hf
  have hview := hxs.shallowView_eq_self_iff
  refine ⟨fun hmaybe => ?_, ⟨hfilter, hremove, hview⟩, ?_, hany⟩
  · rw [hview.mpr hmaybe] at hfilter hremove
    have hkept : ∀ x ∈ (xs.selected p).elements, x ∈ xs.elements := by
      rw [elements_selected]
      exact fun x hx => List.mem_of_mem_filter hx
    have hsame : (xs.selected p).shallowView = xs.selected p :=
      (hxs.selected p).shallowView_eq_self_iff.mpr fun x hx => hmaybe x (hkept x hx)
    have hagain := (computes_filter hw (hxs.selected p) (fun x hx => hholes x (hkept x hx)) hf).1
    rw [hsame, selected_selected] at hagain
    refine ⟨hfilter, hremove, hfilter.bind_eq hagain, _, hany, ?_⟩
    rw [elements_selected, List.any_eq_true, ne_eq, List.filter_eq_nil_iff]
    simp
  · have hcount := fun q => computes_count hw (hxs.shallowView.selected q)
    have hparts : xs.elements.length = (xs.shallowView.selected p).elements.length +
        (xs.shallowView.selected fun v => !p v).elements.length := by
      rw [elements_selected, elements_selected, ← hxs.length_elements_shallowView]
      exact List.length_eq_length_filter_add p
    exact ⟨_, _, hfilter.bind_eq (hcount p), hremove.bind_eq (hcount _),
      hparts ▸ computes_count hw hxs⟩

/-- A function that gives its argument. -/
def pass : Func Empty := ⟨0, "pass", 1, .pipe []⟩

/-- It holds on the values that hold. -/
theorem decides_pass (w : World Empty Unit) : pass.Decides w Value.truthy :=
  fun _ => Computes.call (Computes.pure rfl)

/-- A map with values of every kind that holds and does not hold, at the start. -/
theorem filter_selects_truthy :
    let w : World Empty Unit := World.initial ()
    let xs : Value Empty := .map [("a", .nil), ("b", .list [.nil]), ("c", .bool false)]
    (filter pass xs).Computes w (· = .map [("b", .list [.nil])]) ∧
      (remove pass xs).Computes w (· = .map [("a", .nil), ("c", .bool false)]) ∧
      (any pass xs).Computes w (· = true) := by
  intro w xs
  have hw : w.registry.Standard := Registry.standard_standard firstFreeId
  have hxs : xs.Countable := .map (by decide) (by decide)
  have hholes : ∀ x ∈ xs.elements, x.unwrapped.isPlaceholder = false := by
    simp [xs, elements, unwrapped, isPlaceholder]
  obtain ⟨hplain, -, -, hany⟩ := filter_selects hw hxs hholes (decides_pass w)
  obtain ⟨hfilter, hremove, -⟩ := hplain (by simp [xs, elements, UnionType.contains])
  exact ⟨hfilter, hremove, hany⟩

/-- A stored `Maybe` is kept as what is inside it, and is not kept when that does not hold, though the
`Maybe` does. -/
theorem filter_loses_maybe :
    let w : World Empty Unit := World.initial ()
    pass.Decides w Value.truthy ∧ truthy (Maybe.some (.bool true) : Value Empty) = true ∧
      truthy (Maybe.some .nil : Value Empty) = true ∧
      (filter pass (.list [Maybe.some (.bool true)])).Computes w (· = .list [.bool true]) ∧
      Value.bool true ≠ (Maybe.some (.bool true) : Value Empty) ∧
      (filter pass (.list [Maybe.some .nil])).Computes w (· = .list []) ∧
      (any pass (.list [Maybe.some .nil])).Computes w (· = true) := by
  intro w
  have hw : w.registry.Standard := Registry.standard_standard firstFreeId
  have hpass := decides_pass w
  have hsingle : ∀ x : Value Empty, Countable (.list [x]) := fun x => .list (by simp)
  have hholes : ∀ x : Value Empty, x.isPlaceholder = false →
      ∀ y ∈ elements (.list [Maybe.some x]), y.unwrapped.isPlaceholder = false :=
    fun x hx => List.forall_mem_singleton.mpr hx
  exact ⟨hpass, rfl, rfl, (computes_filter hw (hsingle _) (hholes _ rfl) hpass).1, nofun,
    (computes_filter hw (hsingle _) (hholes _ rfl) hpass).1, computes_any hw (hsingle _) hpass⟩

end DynamicDispatch.Collection
