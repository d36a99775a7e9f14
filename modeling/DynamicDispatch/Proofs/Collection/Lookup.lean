import DynamicDispatch.Collection.Comparison
import DynamicDispatch.Methods.Provided
import DynamicDispatch.Proofs.Dispatch
import DynamicDispatch.Proofs.Registry.Lookup
import DynamicDispatch.Proofs.Value.WellFormed

/-!
# Looking into a collection

Where looking up is as it was installed, `get` and `keys` do for each collection what its data say:
`get` finds the stored value, the reader takes it out of its `Maybe`, and `keys` lists the keys in
order. None of this can fail, whatever the key.
-/

namespace DynamicDispatch.Collection

variable {C S : Type} [Embedding C S] {types : Nat → Option (RecordType (Value C))} {w : World C S}

open DynamicDispatch.Action Registry

omit [Embedding C S] in
/-- Records of a known type are looked into as records. -/
theorem keyedFamily?_record {type : RecordType (Value C)} (htype : types type.id = some type)
    (fields : List (Value C)) :
    keyedFamily? types (Value.record type fields).typeKey = some .record := by
  simp [Value.typeKey, RecordType.key, keyedFamily?, htype]

/-- The family whose methods look into a value. -/
def lookupFamily? : Value C → Option Family
  | .list _ => some .list
  | .text _ => some .text
  | .map _ => some .map
  | .record _ _ => some .record
  | _ => none

omit [Embedding C S] in
/-- A well-formed value is looked into by the family that it should be looked into by. -/
theorem keyedFamily?_eq {v : Value C} (hv : v.WellFormed types) :
    keyedFamily? types v.typeKey = lookupFamily? v := by
  cases hv with
  | record htype _ => exact keyedFamily?_record htype _
  | _ => rfl

omit [Embedding C S] in
/-- A collection can be looked into, and no other well-formed value can. -/
theorem isSome_keyedFamily? {v : Value C} (hv : v.WellFormed types) :
    (keyedFamily? types v.typeKey).isSome = v.hasKeys := by
  rw [keyedFamily?_eq hv]
  cases v <;> rfl

omit [Embedding C S] in
/-- Of two values of one type both are collections or none is. -/
theorem hasKeys_eq_of_typeKey_eq {a b : Value C} (htype : a.typeKey = b.typeKey) :
    a.hasKeys = b.hasKeys := by
  cases a <;> cases b <;> first | rfl | cases htype

omit [Embedding C S] in
/-- No value is of the type that stands for everything iterable. -/
theorem typeKey_ne_iterator (v : Value C) : v.typeKey ≠ .iterator := by
  cases v <;> simp [Value.typeKey, RecordType.key, UnionType.key]

omit [Embedding C S] in
/-- The keys of a value are no holes. -/
theorem isPlaceholder_key {v k : Value C} (hk : k ∈ v.keys) : k.isPlaceholder = false := by
  cases v with
  | list _ | text _ | map _ | record _ _ =>
    obtain ⟨x, -, rfl⟩ := List.mem_map.mp hk
    rfl
  | _ => exact absurd hk List.not_mem_nil

omit [Embedding C S] in
/-- A collection has the methods of looking into it from the family of its type. -/
theorem provides_of_hasKeys (hw : w.registry.StandardLookup types) {v : Value C}
    (hv : v.WellFormed types) (hkeys : v.hasKeys = true) :
    ∃ family, keyedFamily? types v.typeKey = some family ∧
      ∀ m ∈ lookups, w.registry.Provides v.typeKey family m := by
  rw [← isSome_keyedFamily? hv] at hkeys
  obtain ⟨family, hfamily⟩ := Option.isSome_iff_exists.mp hkeys
  exact ⟨family, hfamily, hw.provides _ _ hfamily⟩

/-- Where the registry has `get` from the family that looks into a value, getting a key shows nothing and
gives what is stored there, as a `Maybe`. -/
theorem shows_get_of_provides (watch : Func C → Bool)
    (hwatch : ∀ g : Func C, g.implements .get = true → watch g = false) {v : Value C} {family : Family}
    (hfamily : lookupFamily? v = some family) (hprovides : w.registry.Provides v.typeKey family .get)
    {key : Value C} (hkey : key.isPlaceholder = false) :
    (Generic.get key v).Shows watch w [] (.ok (Maybe.of (v.storedUnder key))) w := by
  have hv : v.isPlaceholder = false := by
    cases v <;> first | rfl | cases hfamily
  have hgiven : ∀ x ∈ [key, v], x.isPlaceholder = false := by simp [hkey, hv]
  refine Shows.method hwatch hprovides rfl hgiven ?_
  cases v with
  | list _ | text _ =>
    cases hfamily
    exact ⟨0, rfl⟩
  | map entries =>
    cases hfamily
    have hfirst : argument [key, .map entries] 0 = key := rfl
    simp only [Family.implementation, Methods.map, Methods.mapSubject, List.getLast?_cons_cons,
      List.getLast?_singleton, pure_bind, Value.storedUnder, hfirst]
    cases Methods.mapKey .get key <;> exact ⟨0, rfl⟩
  | record type fields =>
    cases hfamily
    cases key <;> exact ⟨0, rfl⟩
  | _ => cases hfamily

/-- It yields what is stored there. -/
theorem yields_get_of_provides {v : Value C} {family : Family} (hfamily : lookupFamily? v = some family)
    (hprovides : w.registry.Provides v.typeKey family .get) {key : Value C}
    (hkey : key.isPlaceholder = false) :
    (Generic.get key v).Yields w (.ok (Maybe.of (v.storedUnder key))) w :=
  (shows_get_of_provides (fun _ => false) (fun _ _ => rfl) hfamily hprovides hkey).yields

/-- Reading a key shows what getting it shows, with the value taken out or another one in its place. -/
theorem shows_getOrElse_of_get {watch : Func C → Bool} {key v x : Value C}
    (h : (Generic.get key v).Shows watch w [] (.ok (Maybe.of x)) w) (fallback : Value C) :
    (getOrElse key fallback v).Shows watch w [] (.ok (x.unwrappedOr fallback)) w := by
  have hread := Maybe.getOr_of_fallback fallback x
  refine h.bind_iff.mpr ?_
  rw [hread]
  exact shows_done_iff.mpr ⟨rfl, rfl, rfl⟩

/-- Reading a key gives what getting it gives, unwrapped. -/
theorem yields_getOrElse_of_get {key v x : Value C}
    (h : (Generic.get key v).Yields w (.ok (Maybe.of x)) w) :
    (getOrElse key .nil v).Yields w (.ok x.unwrapped) w := by
  refine h.bind ?_
  rw [Maybe.getOr_of]
  exact yields_done _ w

/-- Getting a key from a collection gives what is stored there, as a `Maybe`. -/
theorem yields_get (hw : w.registry.StandardLookup types) {v : Value C} (hv : v.WellFormed types)
    (hkeys : v.hasKeys = true) {key : Value C} (hkey : key.isPlaceholder = false) :
    (Generic.get key v).Yields w (.ok (Maybe.of (v.storedUnder key))) w := by
  obtain ⟨family, hfamily, hprovides⟩ := provides_of_hasKeys hw hv hkeys
  exact yields_get_of_provides (keyedFamily?_eq hv ▸ hfamily) (hprovides .get (by decide)) hkey

/-- Reading a key of a collection gives what is stored there, unwrapped. -/
theorem yields_getOrElse (hw : w.registry.StandardLookup types) {v : Value C} (hv : v.WellFormed types)
    (hkeys : v.hasKeys = true) {key : Value C} (hkey : key.isPlaceholder = false) :
    (getOrElse key .nil v).Yields w (.ok (v.storedUnder key).unwrapped) w :=
  yields_getOrElse_of_get (yields_get hw hv hkeys hkey)

/-- Where the registry has `keys` from the family that looks into a value, listing the keys shows nothing
and gives them in order. -/
theorem shows_keys_of_provides (watch : Func C → Bool)
    (hwatch : ∀ g : Func C, g.implements .keys = true → watch g = false) {v : Value C}
    {family : Family} (hfamily : lookupFamily? v = some family)
    (hprovides : w.registry.Provides v.typeKey family .keys) :
    (Generic.keys v).Shows watch w [] (.ok (.list v.keys)) w := by
  have hv : v.isPlaceholder = false := by
    cases v <;> first | rfl | cases hfamily
  have hgiven : ∀ x ∈ [v], x.isPlaceholder = false := by simp [hv]
  refine Shows.method hwatch hprovides rfl hgiven ?_
  cases v with
  | list _ | text _ | record _ _ =>
    cases hfamily
    exact ⟨0, rfl⟩
  | map entries =>
    cases hfamily
    rw [Value.keys, List.map_map]
    exact ⟨0, rfl⟩
  | _ => cases hfamily

/-- They are taken out as a list. -/
theorem shows_keyList_of_provides (watch : Func C → Bool)
    (hwatch : ∀ g : Func C, g.implements .keys = true → watch g = false) {v : Value C}
    {family : Family} (hfamily : lookupFamily? v = some family)
    (hprovides : w.registry.Provides v.typeKey family .keys) :
    (keyList v).Shows watch w [] (.ok v.keys) w :=
  (shows_keys_of_provides watch hwatch hfamily hprovides).bind_iff.mpr (shows_pure _ _)

/-- The keys are yielded in order. -/
theorem yields_keys_of_provides {v : Value C} {family : Family} (hfamily : lookupFamily? v = some family)
    (hprovides : w.registry.Provides v.typeKey family .keys) :
    (Generic.keys v).Yields w (.ok (.list v.keys)) w :=
  (shows_keys_of_provides (fun _ => false) (fun _ _ => rfl) hfamily hprovides).yields

/-- They are yielded as a list. -/
theorem yields_keyList_of_provides {v : Value C} {family : Family}
    (hfamily : lookupFamily? v = some family) (hprovides : w.registry.Provides v.typeKey family .keys) :
    (keyList v).Yields w (.ok v.keys) w :=
  (shows_keyList_of_provides (fun _ => false) (fun _ _ => rfl) hfamily hprovides).yields

/-- The keys of a collection are listed in order. -/
theorem yields_keyList (hw : w.registry.StandardLookup types) {v : Value C} (hv : v.WellFormed types)
    (hkeys : v.hasKeys = true) : (keyList v).Yields w (.ok v.keys) w := by
  obtain ⟨family, hfamily, hprovides⟩ := provides_of_hasKeys hw hv hkeys
  exact yields_keyList_of_provides (keyedFamily?_eq hv ▸ hfamily) (hprovides .keys (by decide))

omit [Embedding C S] in
/-- A well-formed value implements looking into it exactly when it is a collection. -/
theorem implements_lookup (hw : w.registry.StandardLookup types) {v : Value C} (hv : v.WellFormed types)
    {m : Method} (hm : m ∈ lookups) :
    w.registry.implements m.protocol v.typeKey = v.hasKeys := by
  have hmethods : m.protocol.methods = [⟨m.name, m.params⟩] := by
    rcases mem_lookups.mp hm with rfl | rfl <;> rfl
  rw [implements, hmethods, ← isSome_keyedFamily? hv]
  cases hfamily : keyedFamily? types v.typeKey with
  | none =>
    simp [hw.absent _ (typeKey_ne_iterator v) hfamily m hm]
  | some family =>
    obtain ⟨id, next, hlookup⟩ := hw.provides _ _ hfamily m hm
    have hknown : w.registry.knows v.typeKey = true := knows_of_lookup (by rw [hlookup]; rfl)
    simp [hknown, hlookup]

/-- Two well-formed values are compared key by key exactly when they are collections of one type. -/
theorem yields_isKeyed (hw : w.registry.StandardLookup types) {a b : Value C} (ha : a.WellFormed types)
    (hb : b.WellFormed types) :
    (isKeyed a b).Yields w (.ok (decide (a.typeKey = b.typeKey) && a.hasKeys)) w := by
  unfold isKeyed
  by_cases htype : a.typeKey = b.typeKey
  · have hsame : a.hasKeys = b.hasKeys := hasKeys_eq_of_typeKey_eq htype
    rw [if_neg (not_not.mpr htype), decide_eq_true htype, Bool.true_and]
    have hget : (implementsProtocol (S := S) Method.get.protocol a).Yields w (.ok a.hasKeys) w := by
      rw [← implements_lookup hw ha (by decide : Method.get ∈ lookups)]
      exact ⟨0, rfl⟩
    refine hget.bind ?_
    cases hkeys : a.hasKeys with
    | false => exact yields_pure false w
    | true =>
      have hkeysb := implements_lookup hw hb (by decide : Method.keys ∈ lookups)
      rw [← hsame, hkeys] at hkeysb
      change (implementsProtocol Method.keys.protocol b).Yields w _ w
      rw [← hkeysb]
      exact ⟨0, rfl⟩
  · rw [if_pos htype, decide_eq_false htype]
    exact yields_pure false w

end DynamicDispatch.Collection
