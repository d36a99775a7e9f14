import DynamicDispatch.Interpreter
import DynamicDispatch.Proofs.Dispatch
import DynamicDispatch.Proofs.Registry.Lookup
import DynamicDispatch.Proofs.Value.Union

/-!
# Joining maps

A map is joined to another one at once, or entry by entry as pairs of key and value. Entry by entry the
values of the map that is joined prevail. At once they prevail exactly where that map is at least as
large as the other one or the two have no key with different values; otherwise the values of the larger
map do, and the order in which three maps are joined matters.
-/

namespace DynamicDispatch.Collection

variable {C S : Type} [Embedding C S] {w : World C S}

open DynamicDispatch.Action Entries

/-- Maps that are joined at once are the union of them. -/
theorem yields_joinMaps {m : Method} (hm : m = .append ∨ m = .conj)
    (hprovides : w.registry.Provides .map .map m) (x xs : List (String × Value C)) :
    (m.call [.map x, .map xs]).Yields w (.ok (.map (union x xs))) w := by
  have hgiven : ∀ v ∈ [Value.map x, .map xs], v.isPlaceholder = false := by
    simp [Value.isPlaceholder]
  rcases hm with rfl | rfl <;> exact Yields.method hprovides rfl hgiven ⟨0, rfl⟩

/-- A pair of key and value is put into a map. -/
theorem yields_conj_pair (hprovides : w.registry.Provides .map .map .conj) (key : String)
    (value : Value C) (entries : List (String × Value C)) :
    (Generic.conj (.list [.text key, value]) (.map entries)).Yields w
      (.ok (.map (Entries.insert key value entries))) w := by
  have hgiven : ∀ v ∈ [Value.list [.text key, value], .map entries], v.isPlaceholder = false := by
    simp [Value.isPlaceholder]
  exact Yields.method hprovides rfl hgiven ⟨0, rfl⟩

/-- The entries of a map added to a collection as pairs of key and value, one after the other. -/
def conjPairs (entries : List (String × Value C)) (target : Value C) : Action C S (Value C) :=
  entries.foldlM (fun acc e => Generic.conj (.list [.text e.1, e.2]) acc) target

/-- Added as pairs, the entries of a map are all put in. -/
theorem yields_conjPairs (hprovides : w.registry.Provides .map .map .conj)
    (x xs : List (String × Value C)) :
    (conjPairs x (.map xs)).Yields w (.ok (.map (putAll x xs))) w := by
  induction x generalizing xs with
  | nil => exact yields_pure _ w
  | cons e x ih => exact (yields_conj_pair hprovides e.1 e.2 xs).bind (ih (Entries.insert e.1 e.2 xs))

/-- Joining two maps at once ends with one map, by either method, and adding the entries of one to the
other as pairs with another map. In the second one the values of `x` are found first; in the first one
those of the larger map, and of `x` when they are of one size. The two are the same exactly where `x`
prevails. The empty map changes nothing on either side, and wherever the joined maps prevail, three maps
can be joined in either order. -/
theorem maps_join (happend : w.registry.Provides .map .map .append)
    (hconj : w.registry.Provides .map .map .conj) {x xs : List (String × Value C)} (hx : Sorted x)
    (hxs : Sorted xs) :
    (∃ joined added, Sorted joined ∧ Sorted added ∧
      (Generic.append (.map x) (.map xs)).Yields w (.ok (.map joined)) w ∧
      (Generic.conj (.map x) (.map xs)).Yields w (.ok (.map joined)) w ∧
      (conjPairs x (.map xs)).Yields w (.ok (.map added)) w ∧
      (∀ key, find? key added = (find? key x).or (find? key xs)) ∧
      (∀ key, find? key joined =
        if xs.length ≤ x.length then (find? key x).or (find? key xs)
        else (find? key xs).or (find? key x)) ∧
      (joined = added ↔ Prevails x xs)) ∧
    ((Generic.append (.map x) (.map [])).Yields w (.ok (.map x)) w ∧
      (Generic.append (.map []) (.map x)).Yields w (.ok (.map x)) w) ∧
    ∀ y z, Sorted y → Sorted z → Prevails y x → Prevails z (union y x) → Prevails z y →
      Prevails (union z y) x → ∃ joined,
        (do Generic.append (.map z) (← Generic.append (.map y) (.map x))).Yields w (.ok joined) w ∧
        (do Generic.append (← Generic.append (.map z) (.map y)) (.map x)).Yields w (.ok joined) w := by
  have hjoin := fun x xs => yields_joinMaps (Or.inl rfl) happend x xs
  refine ⟨⟨union x xs, putAll x xs, hx.union hxs, hxs.putAll x, hjoin x xs,
    yields_joinMaps (Or.inr rfl) hconj x xs, yields_conjPairs hconj x xs, find?_putAll hx xs,
    find?_union hx hxs, union_eq_putAll_iff hx hxs⟩, ?_, fun y z hy hz hyx hzyx hzy hzyx' => ?_⟩
  · obtain ⟨hright, hleft⟩ := union_nil hx
    have h := And.intro (hjoin x []) (hjoin [] x)
    rwa [hright, hleft] at h
  · refine ⟨.map (union z (union y x)), (hjoin y x).bind (hjoin z (union y x)), ?_⟩
    rw [union_union hx hy hz hyx hzyx hzy hzyx']
    exact (hjoin z y).bind (hjoin (union z y) x)

/-- Two maps of one size with a shared key, joined at once and as pairs at the start. -/
theorem maps_join_overlapping :
    let x : List (String × Value Empty) := [("a", .bool true), ("c", .nil)]
    let xs : List (String × Value Empty) := [("a", .bool false), ("b", .nil)]
    let w : World Empty Unit := World.initial ()
    Sorted x ∧ Sorted xs ∧ Prevails x xs ∧
      ∃ joined, (Generic.append (.map x) (.map xs)).Yields w (.ok (.map joined)) w ∧
        (conjPairs x (.map xs)).Yields w (.ok (.map joined)) w ∧
        find? "a" joined = some (.bool true) := by
  intro x xs w
  have hx : Sorted x := by decide
  have hxs : Sorted xs := by decide
  have hprevails : Prevails x xs := Or.inl (Nat.le_refl 2)
  have hw : w.registry.Standard := Registry.standard_standard firstFreeId
  obtain ⟨⟨joined, added, -, -, hjoined, -, hadded, hfind, -, hiff⟩, -, -⟩ :=
    maps_join (w := w) (hw .map .map .append rfl) (hw .map .map .conj rfl) hx hxs
  obtain rfl := hiff.mpr hprevails
  exact ⟨hx, hxs, hprevails, joined, hjoined, hadded, hfind "a"⟩

/-- Joined to a larger map, a map loses the value of a shared key that adding its entry as a pair
keeps, and three maps joined in two orders are different. -/
theorem joined_ne_added :
    let small : List (String × Value Empty) := [("a", .bool true)]
    let other : List (String × Value Empty) := [("a", .bool false)]
    let apart : List (String × Value Empty) := [("b", .nil)]
    let large : List (String × Value Empty) := [("a", .bool false), ("b", .nil)]
    let w : World Empty Unit := World.initial ()
    ((Generic.append (.map small) (.map large)).Yields w (.ok (.map large)) w ∧
      (Generic.conj (.map small) (.map large)).Yields w (.ok (.map large)) w ∧
      (conjPairs small (.map large)).Yields w (.ok (.map [("a", .bool true), ("b", .nil)])) w) ∧
    (do Generic.append (.map small) (← Generic.append (.map apart) (.map other))).Yields w
      (.ok (.map [("a", .bool false), ("b", .nil)])) w ∧
    (do Generic.append (← Generic.append (.map small) (.map apart)) (.map other)).Yields w
      (.ok (.map [("a", .bool true), ("b", .nil)])) w := by
  intro small other apart large w
  have hw : w.registry.Standard := Registry.standard_standard firstFreeId
  have hconj := hw .map .map .conj rfl
  have happend := fun x xs => yields_joinMaps (w := w) (Or.inl rfl) (hw .map .map .append rfl) x xs
  exact ⟨⟨happend small large, yields_joinMaps (Or.inr rfl) hconj small large,
    yields_conjPairs hconj small large⟩, (happend apart other).bind (happend small _),
    (happend small apart).bind (happend _ other)⟩

end DynamicDispatch.Collection
