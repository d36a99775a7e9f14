import DynamicDispatch.Proofs.Collection.Path

/-!
# Taking out what is at the end of a path

A path is walked down to its last map, from which the last key is taken out, or to the first level that
is absent, where nothing is. Every level that is walked through is written back as it comes out of a
look-up. What has been taken out is no longer found, taking it out again changes nothing, it does not
matter whether it was written just before, and paths that part from this one lead to what they led to.
-/

namespace DynamicDispatch.Collection

variable {C S : Type}

open DynamicDispatch.Action Value

/-- A node with a change made in the map that a path leads to with its last key. Where a level is
absent the path ends and nothing is changed. -/
def changeIn (change : Value C → Value C → Value C) : List (Value C) → Value C → Value C
  | [], node => node
  | [key], node => change key node
  | key :: path, node =>
    match (node.storedUnder key).unwrapped with
    | .nil => node
    | child => put key (changeIn change path child) node

/-- A node without what is at the end of a path. -/
def removeIn : List (Value C) → Value C → Value C := changeIn without

/-- A node whose levels along a path are written as they come out of a look-up: the inside of a present
`Maybe` takes its place. -/
def opened : List (Value C) → Value C → Value C := changeIn fun _ node => node

/-- What is stored at the levels that a path walks through. -/
def walked : List (Value C) → Value C → List (Value C)
  | [], _ => []
  | [_], _ => []
  | key :: path, node =>
    match (node.storedUnder key).unwrapped with
    | .nil => []
    | child => node.storedUnder key :: walked path child

/-- Two paths part by their texts: after keys of the same texts come keys of different ones. -/
inductive PartsByText : List (Value C) → List (Value C) → Prop
  | here {key key' : Value C} {path path' : List (Value C)} (apart : key.entryName? ≠ key'.entryName?) :
      PartsByText (key :: path) (key' :: path')
  | later {key key' : Value C} {path path' : List (Value C)} (same : key.entryName? = key'.entryName?)
      (rest : PartsByText path path') : PartsByText (key :: path) (key' :: path')

/-- Along a path through maps they part in the maps. -/
theorem PartsByText.parts {path path' : List (Value C)} {node : Value C} (h : PartsByText path path')
    (hthrough : ThroughMaps path node) : Parts path path' node := by
  induction h generalizing node with
  | here apart => cases hthrough <;> exact .here apart
  | later same rest ih =>
    cases hthrough with
    | last _ _ => cases rest
    | step _ _ child_of through => exact .later same child_of (ih through)

/-- Along a path through maps every level but the last stores the next map, or is absent. -/
theorem ThroughMaps.walk
    {motive : (path : List (Value C)) → (node : Value C) → ThroughMaps path node → Prop}
    (last : ∀ {key : Value C} {entries : List (String × Value C)} (isPathKey : key.isPathKey = true)
      (sorted : Entries.Sorted entries), motive [key] (.map entries) (.last isPathKey sorted))
    (present : ∀ {key next : Value C} {path : List (Value C)}
      {entries inner : List (String × Value C)} (isPathKey : key.isPathKey = true)
      (sorted : Entries.Sorted entries) (child_of : Continues (.map entries) key (.map inner))
      (rest : ThroughMaps (next :: path) (.map inner)),
      (storedUnder (.map entries) key).unwrapped = .map inner → motive _ _ rest →
      motive (key :: next :: path) (.map entries) (.step isPathKey sorted child_of rest))
    (absent : ∀ {key next : Value C} {path : List (Value C)} {entries : List (String × Value C)}
      (isPathKey : key.isPathKey = true) (sorted : Entries.Sorted entries)
      (child_of : Continues (.map entries) key (.map []))
      (rest : ThroughMaps (next :: path) (.map [])),
      (storedUnder (.map entries) key).unwrapped = .nil →
      motive (key :: next :: path) (.map entries) (.step isPathKey sorted child_of rest))
    {path : List (Value C)} {node : Value C} (h : ThroughMaps path node) : motive path node h := by
  induction h with
  | last isPathKey sorted => exact last isPathKey sorted
  | step isPathKey sorted child_of rest ih =>
    obtain ⟨next, path, rfl⟩ := rest.writable.exists_cons
    obtain ⟨inner, rfl⟩ := rest.exists_map
    rcases child_of.unwrapped with ⟨hchild, -⟩ | ⟨hnil, hempty, -⟩
    · exact present isPathKey sorted child_of rest hchild ih
    · obtain rfl := Value.map.inj hempty
      exact absent isPathKey sorted child_of rest hnil

section Levels

variable {change : Value C → Value C → Value C} {key next : Value C} {path : List (Value C)}

/-- Behind a stored map the change is made in it. -/
theorem changeIn_of_present {node : Value C} {inner : List (String × Value C)}
    (h : (node.storedUnder key).unwrapped = .map inner) :
    changeIn change (key :: next :: path) node =
      put key (changeIn change (next :: path) (.map inner)) node := by
  rw [changeIn, h]
  exact nofun

/-- At an absent level nothing is changed. -/
theorem changeIn_of_absent {node : Value C} (h : (node.storedUnder key).unwrapped = .nil) :
    changeIn change (key :: next :: path) node = node := by
  rw [changeIn, h]
  exact nofun

/-- Behind a stored map what is taken out is taken out of it. -/
theorem removeIn_of_present {node : Value C} {inner : List (String × Value C)}
    (h : (node.storedUnder key).unwrapped = .map inner) :
    removeIn (key :: next :: path) node = put key (removeIn (next :: path) (.map inner)) node :=
  changeIn_of_present h

/-- At an absent level nothing is taken out. -/
theorem removeIn_of_absent {node : Value C} (h : (node.storedUnder key).unwrapped = .nil) :
    removeIn (key :: next :: path) node = node :=
  changeIn_of_absent h

end Levels

/-- Writing the map that a path goes on with leaves a path through maps. -/
theorem ThroughMaps.put {key child : Value C} {path : List (Value C)}
    {entries : List (String × Value C)} (h : ThroughMaps path child) (isPathKey : key.isPathKey = true)
    (sorted : Entries.Sorted entries) : ThroughMaps (key :: path) (Value.put key child (.map entries)) := by
  obtain ⟨name, hname⟩ := Option.isSome_iff_exists.mp isPathKey
  have hwritten := continues_put (takes_map isPathKey entries) h.writable.isNode
  rw [Value.put, hname] at hwritten ⊢
  exact .step isPathKey (sorted.insert name child) hwritten h

/-- A path that has been written leads through maps. -/
theorem ThroughMaps.putIn {path : List (Value C)} {node : Value C} (h : ThroughMaps path node)
    (value : Value C) : ThroughMaps path (Collection.putIn path value node) := by
  induction h with
  | @last key entries isPathKey sorted =>
    obtain ⟨name, hname⟩ := Option.isSome_iff_exists.mp isPathKey
    rw [Collection.putIn, Collection.putIn, Value.put, hname]
    exact .last isPathKey (sorted.insert name value)
  | step isPathKey sorted child_of rest ih =>
    rw [Collection.putIn, child_of.descend_eq]
    exact ih.put isPathKey sorted

/-- A path whose end has been taken out leads through maps. -/
theorem ThroughMaps.removeIn {path : List (Value C)} {node : Value C} (h : ThroughMaps path node) :
    ThroughMaps path (Collection.removeIn path node) := by
  induction h using ThroughMaps.walk with
  | @last key entries isPathKey sorted =>
    obtain ⟨name, hname⟩ := Option.isSome_iff_exists.mp isPathKey
    rw [Collection.removeIn, changeIn, without, hname]
    exact .last isPathKey (sorted.erase name)
  | present isPathKey sorted child_of rest hinner ih =>
    rw [removeIn_of_present hinner]
    exact ih.put isPathKey sorted
  | absent isPathKey sorted child_of rest hnil =>
    rw [removeIn_of_absent hnil]
    exact .step isPathKey sorted child_of rest

/-- What is removed behind a key that has been written is removed from what was written. -/
theorem removeIn_put {key child : Value C} {path : List (Value C)} {entries : List (String × Value C)}
    (isPathKey : key.isPathKey = true) (h : ThroughMaps path child) :
    removeIn (key :: path) (put key child (.map entries)) =
      put key (removeIn path child) (.map entries) := by
  obtain ⟨next, path, rfl⟩ := h.writable.exists_cons
  obtain ⟨inner, rfl⟩ := h.exists_map
  have hwritten : ((put key (.map inner) (.map entries)).storedUnder key).unwrapped = .map inner := by
    rw [storedUnder_put (takes_map isPathKey entries)]
    rfl
  rw [removeIn_of_present hwritten, put_put]

/-- Taking out twice is taking out once. -/
theorem ThroughMaps.removeIn_removeIn {path : List (Value C)} {node : Value C}
    (h : ThroughMaps path node) :
    Collection.removeIn path (Collection.removeIn path node) = Collection.removeIn path node := by
  induction h using ThroughMaps.walk with
  | @last key entries _ _ => exact without_without key entries
  | present isPathKey _ _ rest hinner ih =>
    rw [removeIn_of_present hinner, removeIn_put isPathKey rest.removeIn, ih]
  | absent _ _ _ _ hnil => rw [removeIn_of_absent hnil, removeIn_of_absent hnil]

/-- Where no level that is walked through is a `Maybe`, they are written as they are. -/
theorem ThroughMaps.opened_eq_self {path : List (Value C)} {node : Value C} (h : ThroughMaps path node)
    (hwalked : ∀ x ∈ walked path node, UnionType.maybe.contains x = false) :
    opened path node = node := by
  induction h using ThroughMaps.walk with
  | last _ _ => rfl
  | @present key next path entries inner _ sorted _ _ hinner ih =>
    rw [walked, hinner] at hwalked
    · obtain ⟨hhere, hbehind⟩ := List.forall_mem_cons.mp hwalked
      have hstored : storedUnder (.map entries) key = .map inner :=
        (unwrapped_eq_self hhere).symm.trans hinner
      have hput : Value.put key (storedUnder (.map entries) key) (.map entries) = .map entries :=
        put_storedUnder sorted (hstored ▸ nofun)
      rw [hstored] at hput
      rw [opened, changeIn_of_present hinner, ← opened, ih hbehind, hput]
    · exact nofun
  | absent _ _ _ _ hnil => exact changeIn_of_absent hnil

variable [Embedding C S] {w : World C S}

/-- Taking a key out of a map. -/
theorem yields_without (hw : w.registry.Standard) {key : Value C} (hkey : key.isPathKey = true)
    (entries : List (String × Value C)) :
    (Generic.dissoc key (.map entries)).Yields w (.ok (without key (.map entries))) w := by
  have hgiven : ∀ x ∈ [key, .map entries], x.isPlaceholder = false :=
    List.forall_mem_cons.mpr ⟨isPlaceholder_of_isPathKey hkey, List.forall_mem_singleton.mpr rfl⟩
  obtain ⟨name, hname⟩ := Option.isSome_iff_exists.mp hkey
  refine Yields.method (hw .map .map .dissoc rfl) rfl hgiven ?_
  have hfirst : argument [key, .map entries] 0 = key := rfl
  rw [without, hname]
  simp only [Family.implementation, Methods.map, Methods.mapSubject, List.getLast?_cons_cons,
    List.getLast?_singleton, pure_bind, hfirst, mapKey_eq_ok hname, Methods.lift]
  exact ⟨0, rfl⟩

/-- Taking out along a path through maps. -/
theorem ThroughMaps.yields_dissocIn (hw : w.registry.Standard) {path : List (Value C)} {node : Value C}
    (h : ThroughMaps path node) :
    (dissocIn path node).Yields w (.ok (Collection.removeIn path node)) w := by
  induction h using ThroughMaps.walk with
  | last isPathKey _ => exact yields_without hw isPathKey _
  | @present key next path entries inner isPathKey _ _ rest hinner ih =>
    have hread := yields_getOrElse_of_get
      (yields_get_node hw.standardPaths (rfl : (Value.map entries).isNode = true) isPathKey)
    have hwrite := yields_put hw.standardPaths (takes_map isPathKey entries)
      (isPlaceholder_of_isNode rest.removeIn.writable.isNode)
    rw [removeIn_of_present hinner]
    rw [hinner] at hread
    exact hread.bind (ih.bind hwrite)
  | @absent key next path entries isPathKey _ _ rest hnil =>
    have hread := yields_getOrElse_of_get
      (yields_get_node hw.standardPaths (rfl : (Value.map entries).isNode = true) isPathKey)
    rw [removeIn_of_absent hnil]
    rw [hnil] at hread
    exact hread.bind (yields_pure _ w)

/-- Nothing is found any more. -/
theorem ThroughMaps.yields_getIn_removeIn (hw : w.registry.Standard) {path : List (Value C)}
    {node : Value C} (h : ThroughMaps path node) :
    (getIn path (Collection.removeIn path node)).Yields w (.ok Maybe.none) w := by
  induction h using ThroughMaps.walk with
  | @last key entries isPathKey _ =>
    have hget := yields_get_node hw.standardPaths (rfl : (without key (.map entries)).isNode = true)
      isPathKey
    rw [storedUnder_without isPathKey] at hget
    exact hget
  | @present key next path entries inner isPathKey _ _ rest hinner ih =>
    have hremoved := rest.removeIn.writable
    have hnode := isNode_put key (Collection.removeIn (next :: path) (.map inner)) (.map entries)
    rw [removeIn_of_present hinner]
    exact ((continues_put (takes_map isPathKey entries) hremoved.isNode).yields_getIn_iff
      hw.standardPaths hnode (.refl hnode key) (List.cons_ne_nil next path)
      (List.forall_mem_cons.mpr ⟨isPathKey, hremoved.isPathKey⟩) _ w).mpr ih
  | @absent key next path entries isPathKey _ child_of rest hnil =>
    have hkeys := rest.writable.isPathKey
    rw [removeIn_of_absent hnil]
    exact (child_of.yields_getIn_iff hw.standardPaths rfl rfl (List.cons_ne_nil next path)
      (List.forall_mem_cons.mpr ⟨isPathKey, hkeys⟩) _ w).mpr
      (yields_getIn_empty_map hw.standardPaths (List.cons_ne_nil next path) hkeys)

/-- What is read along a path that parts from the one whose end is taken out is the same as before. -/
theorem Parts.yields_getIn_removeIn_iff (hw : w.registry.Standard) {path path' : List (Value C)}
    {node : Value C} (h : ThroughMaps path node) (hparts : Parts path path' node)
    (hkeys : ∀ k ∈ path', k.isPathKey = true) (r : Except Error (Value C)) (w' : World C S) :
    (getIn path' (Collection.removeIn path node)).Yields w r w' ↔ (getIn path' node).Yields w r w' := by
  induction h using ThroughMaps.walk generalizing path' with
  | @last key entries _ _ =>
    cases hparts with
    | here apart =>
      exact yields_getIn_iff_of_storedUnder_eq hw.standardPaths rfl rfl (hkeys _ List.mem_cons_self)
        (storedUnder_without_of_not_same apart) _ r w'
    | later _ _ rest => cases rest
  | @present key next path entries inner isPathKey _ child_of rest hinner ih =>
    have hnode := isNode_put key (Collection.removeIn (next :: path) (.map inner)) (.map entries)
    rw [removeIn_of_present hinner]
    cases hparts with
    | here apart =>
      exact yields_getIn_iff_of_storedUnder_eq hw.standardPaths hnode rfl
        (hkeys _ List.mem_cons_self) (storedUnder_put_of_not_same apart _) _ r w'
    | @later _ _ _ child _ path' same child_of' hrest =>
      obtain rfl : child = .map inner := child_of'.descend_eq.symm.trans child_of.descend_eq
      have hpath' : path' ≠ [] := by
        rintro rfl
        cases hrest
      have hwritten := continues_put (takes_map isPathKey entries) rest.removeIn.writable.isNode
      rw [hwritten.yields_getIn_iff hw.standardPaths hnode (sameEntry_put.mpr same) hpath' hkeys,
        child_of.yields_getIn_iff hw.standardPaths rfl same hpath' hkeys]
      exact ih hrest fun k hk => hkeys k (List.mem_cons_of_mem _ hk)
  | absent _ _ _ _ hnil => rw [removeIn_of_absent hnil]

/-- What is read under one key of a map says what comes out of a look-up there. -/
theorem unwrapped_of_yields_getIn_singleton (hw : w.registry.Standard) {key v found : Value C}
    {entries : List (String × Value C)} (hkey : key.isPathKey = true)
    (hv : Maybe.getOr .nil v = .ok found)
    (h : (getIn [key] (.map entries)).Yields w (.ok v) w) :
    (storedUnder (.map entries) key).unwrapped = found := by
  have hget := yields_get_node hw.standardPaths (rfl : (Value.map entries).isNode = true) hkey
  obtain rfl := Except.ok.inj (h.unique hget).1
  exact Except.ok.inj ((Maybe.getOr_of _).symm.trans hv)

/-- Where a level on the way is absent, the levels before it are written as they come out of a look-up
and nothing else is changed. -/
theorem ThroughMaps.removeIn_eq_opened (hw : w.registry.Standard) {path : List (Value C)}
    {node : Value C} (h : ThroughMaps path node) {before after : List (Value C)}
    (hpath : path = before ++ after) (hbefore : before ≠ []) (hafter : after ≠ [])
    (habsent : (getIn before node).Yields w (.ok Maybe.none) w) :
    Collection.removeIn path node = opened path node := by
  induction h using ThroughMaps.walk generalizing before with
  | last _ _ =>
    obtain ⟨key, before, rfl⟩ := List.exists_cons_of_ne_nil hbefore
    obtain ⟨-, hnil⟩ := List.cons.inj hpath
    exact absurd (List.append_eq_nil_iff.mp hnil.symm).2 hafter
  | @present key next path entries inner isPathKey _ child_of rest hinner ih =>
    rw [removeIn_of_present hinner, opened, changeIn_of_present hinner, ← opened]
    obtain ⟨first, before, rfl⟩ := List.exists_cons_of_ne_nil hbefore
    obtain ⟨rfl, hrest⟩ := List.cons.inj hpath
    cases before with
    | nil =>
      have hnil := unwrapped_of_yields_getIn_singleton hw isPathKey rfl habsent
      rw [hinner] at hnil
      cases hnil
    | cons second before =>
      have hkeys : ∀ k ∈ key :: second :: before, k.isPathKey = true := by
        refine List.forall_mem_cons.mpr ⟨isPathKey, fun k hk => rest.writable.isPathKey k ?_⟩
        exact hrest ▸ List.mem_append_left after hk
      have hbehind := (child_of.yields_getIn_iff hw.standardPaths rfl rfl
        (List.cons_ne_nil second before) hkeys _ w).mp habsent
      rw [ih hrest (List.cons_ne_nil second before) hbehind]
  | absent _ _ _ _ hnil => rw [removeIn_of_absent hnil, opened, changeIn_of_absent hnil]

/-- Where every level on the way stores a map, what was written at the end before it is taken out
might as well not have been written. -/
theorem ThroughMaps.removeIn_putIn (hw : w.registry.Standard) {path : List (Value C)}
    {node : Value C} (h : ThroughMaps path node)
    (hpresent : ∀ before after, path = before ++ after → before ≠ [] → after ≠ [] →
      ∃ inner, (getIn before node).Yields w (.ok (Maybe.some (.map inner))) w) (value : Value C) :
    Collection.removeIn path (Collection.putIn path value node) = Collection.removeIn path node := by
  induction h using ThroughMaps.walk with
  | @last key entries _ _ => exact without_put key value entries
  | @present key next path entries inner isPathKey _ child_of rest hinner ih =>
    rw [Collection.putIn, child_of.descend_eq, removeIn_put isPathKey (rest.putIn value),
      removeIn_of_present hinner, ih]
    intro before after hpath hbefore hafter
    obtain ⟨inner', hread⟩ := hpresent (key :: before) after (congrArg (key :: ·) hpath)
      (List.cons_ne_nil key before) hafter
    refine ⟨inner', (child_of.yields_getIn_iff hw.standardPaths rfl rfl hbefore ?_ _ w).mp hread⟩
    refine List.forall_mem_cons.mpr ⟨isPathKey, fun k hk => rest.writable.isPathKey k ?_⟩
    exact hpath ▸ List.mem_append_left after hk
  | @absent key next path entries isPathKey _ _ _ hnil =>
    obtain ⟨inner, hread⟩ := hpresent [key] (next :: path) rfl (List.cons_ne_nil key [])
      (List.cons_ne_nil next path)
    have hinner := unwrapped_of_yields_getIn_singleton hw isPathKey rfl hread
    rw [hnil] at hinner
    cases hinner

/-- Taking out what is at the end of a path through maps ends without an error and leaves the world.
Nothing is found at the end of the path any more, taking it out again gives the same, and what is read
along every path that parts from this one is what was read before. Where a level on the way is absent,
only the levels before it are written as they come out of a look-up, and if none of them is a `Maybe`
nothing is changed at all. Where every level on the way stores a map, it does not matter whether a value
that is no hole has been written at the end just before. -/
theorem dissocIn_along_path (hw : w.registry.Standard) {path : List (Value C)}
    {entries : List (String × Value C)} (h : ThroughMaps path (.map entries)) :
    ∃ removed, (dissocIn path (.map entries)).Yields w (.ok removed) w ∧
      (getIn path removed).Yields w (.ok Maybe.none) w ∧
      (dissocIn path removed).Yields w (.ok removed) w ∧
      (∀ path', PartsByText path path' → (∀ k ∈ path', k.isPathKey = true) → ∀ r w',
        (getIn path' removed).Yields w r w' ↔ (getIn path' (.map entries)).Yields w r w') ∧
      (∀ before after, path = before ++ after → before ≠ [] → after ≠ [] →
        (getIn before (.map entries)).Yields w (.ok Maybe.none) w →
        removed = opened path (.map entries) ∧
          ((∀ x ∈ walked path (.map entries), UnionType.maybe.contains x = false) →
            removed = .map entries)) ∧
      ((∀ before after, path = before ++ after → before ≠ [] → after ≠ [] →
          ∃ inner, (getIn before (.map entries)).Yields w (.ok (Maybe.some (.map inner))) w) →
        ∀ value : Value C, value.isPlaceholder = false →
          (assocIn path value (.map entries) >>= dissocIn path).Yields w (.ok removed) w) := by
  refine ⟨removeIn path (.map entries), h.yields_dissocIn hw, h.yields_getIn_removeIn hw, ?again,
    fun path' hapart hkeys r w' => (hapart.parts h).yields_getIn_removeIn_iff hw h hkeys r w',
    fun before after hpath hbefore hafter habsent => ?absent, fun hpresent value hvalue => ?written⟩
  case again =>
    have hagain := h.removeIn.yields_dissocIn hw
    rwa [h.removeIn_removeIn] at hagain
  case absent =>
    have hopened := h.removeIn_eq_opened hw hpath hbefore hafter habsent
    exact ⟨hopened, fun hwalked => hopened.trans (h.opened_eq_self hwalked)⟩
  case written =>
    have hremoved := (h.putIn value).yields_dissocIn hw
    rw [h.removeIn_putIn hw hpresent value] at hremoved
    exact (h.writable.yields_assocIn hw.standardPaths hvalue).bind hremoved

/-- Two ends behind a present `Maybe`: one that is there, and one below a level that is missing. -/
theorem dissocIn_along_path_present :
    let w : World Empty Unit := World.initial ()
    let inner : List (String × Value Empty) := [("b", .bool true), ("c", .bool false)]
    let node : Value Empty := .map [("a", Maybe.some (.map inner)), ("d", .nil)]
    (∃ removed, (dissocIn [.text "a", .text "b"] node).Yields w (.ok removed) w ∧
      (getIn [.text "a", .text "b"] removed).Yields w (.ok Maybe.none) w ∧
      (∀ r w', (getIn [.text "a", .text "c"] removed).Yields w r w' ↔
        (getIn [.text "a", .text "c"] node).Yields w r w') ∧
      (assocIn [.text "a", .text "b"] .nil node >>= dissocIn [.text "a", .text "b"]).Yields w
        (.ok removed) w) ∧
      (dissocIn [.text "a", .text "e", .text "f"] node).Yields w
        (.ok (.map [("a", .map inner), ("d", .nil)])) w := by
  intro w inner node
  have hw : w.registry.Standard := Registry.standard_standard firstFreeId
  have hread : (getIn [.text "a"] node).Yields w (.ok (Maybe.some (.map inner))) w :=
    yields_get_node hw.standardPaths rfl rfl
  have hthere : ThroughMaps [.text "a", .text "b"] node :=
    .step rfl (by decide) (.present rfl rfl) (.last rfl (by decide))
  have hmissing : ThroughMaps [.text "a", .text "e", .text "f"] node :=
    .step rfl (by decide) (.present rfl rfl) (.step rfl (by decide) (.absent rfl (.inl rfl))
      (.last rfl List.Pairwise.nil))
  have hnone : (getIn [.text "a", .text "e"] node).Yields w (.ok Maybe.none) w :=
    hread.bind (yields_get_node hw.standardPaths rfl rfl)
  have hpresent : ∀ before after : List (Value Empty), [.text "a", .text "b"] = before ++ after →
      before ≠ [] → after ≠ [] →
      ∃ inner, (getIn before node).Yields w (.ok (Maybe.some (.map inner))) w := by
    intro before after hpath hbefore hafter
    obtain ⟨first, before, rfl⟩ := List.exists_cons_of_ne_nil hbefore
    obtain ⟨rfl, hrest⟩ := List.cons.inj hpath
    cases before with
    | nil => exact ⟨inner, hread⟩
    | cons second before =>
      obtain ⟨-, hnil⟩ := List.cons.inj hrest
      exact absurd (List.append_eq_nil_iff.mp hnil.symm).2 hafter
  obtain ⟨removed, hremove, hgone, -, hothers, -, hwritten⟩ := dissocIn_along_path hw hthere
  obtain ⟨opened, hopen, -, -, -, habsent, -⟩ := dissocIn_along_path hw hmissing
  obtain ⟨rfl, -⟩ := habsent [.text "a", .text "e"] [.text "f"] rfl nofun nofun hnone
  exact ⟨⟨removed, hremove, hgone, hothers _ (.later rfl (.here nofun))
    (by simp [isPathKey, entryName?]), hwritten hpresent .nil rfl⟩, hopen⟩

end DynamicDispatch.Collection
