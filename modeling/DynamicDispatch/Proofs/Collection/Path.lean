import DynamicDispatch.Interpreter
import DynamicDispatch.Proofs.Collection.Lookup
import DynamicDispatch.Proofs.Value.Node

/-!
# Writing and reading along a path

A path leads through maps and lists. A level of a map that is missing, nil or `Maybe.none` is taken for
an empty map, and one that is a present `Maybe` for what is in it. Where a path can be written, what is
written is read back, a second write takes the place of the first, and what is read along every path
that parts from it is the same as before, also where the write has created levels.
-/

namespace DynamicDispatch

variable {C S : Type}

/-- Maps are read, written and emptied, and lists are read and written, as it was installed. -/
structure Registry.StandardPaths (r : Registry C) : Prop where
  map : ∀ m ∈ [Method.get, .assoc, .empty], r.Provides .map .map m
  list : ∀ m ∈ [Method.get, .assoc], r.Provides .list .list m

/-- The standard methods include these. -/
theorem Registry.Standard.standardPaths {r : Registry C} (hr : r.Standard) : r.StandardPaths := by
  refine ⟨fun m hm => hr _ _ m ?_, fun m hm => hr _ _ m ?_⟩
  · simp only [List.mem_cons, List.not_mem_nil, or_false] at hm
    rcases hm with rfl | rfl | rfl <;> rfl
  · simp only [List.mem_cons, List.not_mem_nil, or_false] at hm
    rcases hm with rfl | rfl <;> rfl

namespace Collection

open DynamicDispatch.Action Value

/-- The node that a path goes on with from a key: what is stored there if it is a node, or is a node
as a present `Maybe`, and an empty map where a map has nothing, nil or `Maybe.none`. -/
inductive Continues (node key : Value C) : Value C → Prop
  | held {child : Value C} (isNode : child.isNode = true) (stored : node.storedUnder key = child) :
      Continues node key child
  | present {child : Value C} (isNode : child.isNode = true)
      (stored : node.storedUnder key = Maybe.some child) : Continues node key child
  | absent {entries : List (String × Value C)} (map : node = .map entries)
      (stored : node.storedUnder key = .nil ∨ node.storedUnder key = Maybe.none) :
      Continues node key (.map [])

/-- A path that can be written in a node. -/
inductive Writable : List (Value C) → Value C → Prop
  | last {node key : Value C} (takes : Takes node key) : Writable [key] node
  | step {node key child : Value C} {path : List (Value C)} (takes : Takes node key)
      (child_of : Continues node key child) (rest : Writable path child) : Writable (key :: path) node

/-- A path that leads through maps: at every key but the last one a map stores another map, as it is or
as a present `Maybe`, or it has nothing there, nil or `Maybe.none`, and the path goes on in an empty
map. -/
inductive ThroughMaps : List (Value C) → Value C → Prop
  | last {key : Value C} {entries : List (String × Value C)} (isPathKey : key.isPathKey = true)
      (sorted : Entries.Sorted entries) : ThroughMaps [key] (.map entries)
  | step {key child : Value C} {path : List (Value C)} {entries : List (String × Value C)}
      (isPathKey : key.isPathKey = true) (sorted : Entries.Sorted entries)
      (child_of : Continues (.map entries) key child) (rest : ThroughMaps path child) :
      ThroughMaps (key :: path) (.map entries)

/-- Two paths that part in a node: after keys for the same entries, they address different ones. -/
inductive Parts : List (Value C) → List (Value C) → Value C → Prop
  | here {node key key' : Value C} {path path' : List (Value C)}
      (apart : ¬ SameEntry node key key') : Parts (key :: path) (key' :: path') node
  | later {node key key' child : Value C} {path path' : List (Value C)}
      (same : SameEntry node key key') (child_of : Continues node key child)
      (rest : Parts path path' child) : Parts (key :: path) (key' :: path') node

/-- What is stored under a key as a node to go on with: an empty map in the place of nil. -/
def descend (key node : Value C) : Value C :=
  match (node.storedUnder key).unwrapped with
  | .nil => .map []
  | found => found

/-- A node with a value put at the end of a path. -/
def putIn : List (Value C) → Value C → Value C → Value C
  | [], value, _ => value
  | key :: path, value, node => put key (putIn path value (descend key node)) node

/-- A node comes out of a look-up as it is, and so it does out of a present `Maybe`. -/
theorem unwrapped_node {child : Value C} (h : child.isNode = true) :
    child.unwrapped = child ∧ (Maybe.some child).unwrapped = child ∧ child ≠ .nil := by
  cases child with
  | map _ | list _ => exact ⟨rfl, rfl, nofun⟩
  | _ => cases h

/-- What is stored where a path goes on comes out as the node, or as nil in the place of an empty
map. -/
theorem Continues.unwrapped {node key child : Value C} (h : Continues node key child) :
    (node.storedUnder key).unwrapped = child ∧ child ≠ .nil ∨
      (node.storedUnder key).unwrapped = .nil ∧ child = .map [] ∧ ∃ entries, node = .map entries := by
  cases h with
  | held isNode stored =>
    obtain ⟨hself, -, hne⟩ := unwrapped_node isNode
    exact .inl ⟨stored ▸ hself, hne⟩
  | present isNode stored =>
    obtain ⟨-, hpresent, hne⟩ := unwrapped_node isNode
    exact .inl ⟨stored ▸ hpresent, hne⟩
  | absent map stored =>
    refine .inr ⟨?_, rfl, _, map⟩
    rcases stored with stored | stored <;> rw [stored] <;> rfl

/-- A path goes on with one node. -/
theorem Continues.descend_eq {node key child : Value C} (h : Continues node key child) :
    descend key node = child := by
  unfold descend
  rcases h.unwrapped with ⟨hchild, hne⟩ | ⟨hnil, rfl, -⟩
  · rw [hchild]
    cases child <;> first | rfl | exact absurd rfl hne
  · rw [hnil]

/-- A path goes on with what is read there, or with an empty map when that is absent. -/
theorem Continues.unwrappedOr_eq {node key child : Value C} (h : Continues node key child) :
    (node.storedUnder key).unwrappedOr (.map []) = child := by
  cases h with
  | held isNode stored =>
    rw [stored]
    cases child <;> first | rfl | cases isNode
  | present _ stored =>
    rw [stored]
    rfl
  | absent _ stored => rcases stored with stored | stored <;> rw [stored] <;> rfl

/-- It starts in a map. -/
theorem ThroughMaps.exists_map {path : List (Value C)} {node : Value C} (h : ThroughMaps path node) :
    ∃ entries, node = .map entries := by
  cases h <;> exact ⟨_, rfl⟩

/-- A path through maps can be written. -/
theorem ThroughMaps.writable {path : List (Value C)} {node : Value C} (h : ThroughMaps path node) :
    Writable path node := by
  induction h with
  | last isPathKey _ => exact .last (takes_map isPathKey _)
  | step isPathKey _ child_of _ ih => exact .step (takes_map isPathKey _) child_of ih

/-- Where a node has been written, a path goes on with it. -/
theorem continues_put {node key child : Value C} (h : Takes node key) (hchild : child.isNode = true) :
    Continues (put key child node) key child :=
  .held hchild (storedUnder_put h child)

/-- A path is written in a node. -/
theorem Writable.isNode {path : List (Value C)} {node : Value C} (h : Writable path node) :
    node.isNode = true := by
  cases h with
  | last takes | step takes _ _ => exact takes.isNode

/-- A path that can be written has a key. -/
theorem Writable.exists_cons {path : List (Value C)} {node : Value C} (h : Writable path node) :
    ∃ key rest, path = key :: rest := by
  cases h <;> exact ⟨_, _, rfl⟩

/-- A path that can be written has keys of paths. -/
theorem Writable.isPathKey {path : List (Value C)} {node : Value C} (h : Writable path node) :
    ∀ key ∈ path, key.isPathKey = true := by
  induction h with
  | last takes => exact List.forall_mem_singleton.mpr takes.isPathKey
  | step takes _ _ ih => exact List.forall_mem_cons.mpr ⟨takes.isPathKey, ih⟩

/-- A node that has been written is a node. -/
theorem Writable.isNode_putIn {path : List (Value C)} {node : Value C} (h : Writable path node)
    (value : Value C) : (putIn path value node).isNode = true := by
  obtain ⟨key, rest, rfl⟩ := h.exists_cons
  rw [putIn, isNode_put]
  exact h.isNode

/-- A path that has been written can be written again. -/
theorem Writable.putIn {path : List (Value C)} {node : Value C} (h : Writable path node)
    (value : Value C) : Writable path (putIn path value node) := by
  induction h with
  | last takes => exact .last (takes.put _ _)
  | step takes child_of rest ih =>
    rw [Collection.putIn, child_of.descend_eq]
    exact .step (takes.put _ _) (continues_put takes (rest.isNode_putIn value)) ih

/-- A second write at the end of a path takes the place of the first. -/
theorem Writable.putIn_putIn {path : List (Value C)} {node : Value C} (h : Writable path node)
    (value value' : Value C) :
    Collection.putIn path value' (Collection.putIn path value node) =
      Collection.putIn path value' node := by
  induction h with
  | last takes => exact put_put _ _
  | @step node key child path takes child_of rest ih =>
    have hwritten := (continues_put takes (rest.isNode_putIn value)).descend_eq
    simp only [Collection.putIn, child_of.descend_eq, hwritten, put_put, ih]

/-- Reading goes through the levels one after the other. -/
theorem getIn_cons_cons (key next : Value C) (path : List (Value C)) (node : Value C) :
    (getIn (key :: next :: path) node : Action C S (Value C)) = Generic.get key node >>= fun found =>
      match presentFields? found with
      | some fields => getIn (next :: path) (argument fields 0)
      | none => pure Maybe.none :=
  rfl

variable [Embedding C S] {w : World C S}

/-- Getting a key of a node gives what is stored there, as a `Maybe`. -/
theorem yields_get_node (hw : w.registry.StandardPaths) {node key : Value C}
    (hnode : node.isNode = true) (hkey : key.isPathKey = true) :
    (Generic.get key node).Yields w (.ok (Maybe.of (node.storedUnder key))) w := by
  have hgiven := isPlaceholder_of_isPathKey hkey
  cases node with
  | map entries => exact yields_get_of_provides rfl (hw.map .get (by decide)) hgiven
  | list items => exact yields_get_of_provides rfl (hw.list .get (by decide)) hgiven
  | _ => cases hnode

/-- Writing a node at a key shows nothing and puts the value there. -/
theorem shows_put (watch : Func C → Bool)
    (hwatch : ∀ g : Func C, g.implements .assoc = true → watch g = false)
    (hw : w.registry.StandardPaths) {node key value : Value C} (h : Takes node key)
    (hvalue : value.isPlaceholder = false) :
    (Generic.assoc key value node).Shows watch w [] (.ok (put key value node)) w := by
  have hgiven : ∀ x ∈ [key, value, node], x.isPlaceholder = false := by
    simp [isPlaceholder_of_isPathKey h.isPathKey, hvalue, isPlaceholder_of_isNode h.isNode]
  have hfirst : argument [key, value, node] 0 = key := rfl
  cases h with
  | entry name_eq =>
    refine Shows.method hwatch (hw.map .assoc (by decide)) rfl hgiven ?_
    rw [put, name_eq]
    simp only [Family.implementation, Methods.map, Methods.mapSubject, List.getLast?_cons_cons,
      List.getLast?_singleton, pure_bind, hfirst, mapKey_eq_ok name_eq, Methods.lift]
    exact ⟨0, rfl⟩
  | position position_eq _ =>
    refine Shows.method hwatch (hw.list .assoc (by decide)) rfl hgiven ?_
    rw [put, position_eq]
    simp only [Family.implementation, Methods.list, Methods.listSubject, List.getLast?_cons_cons,
      List.getLast?_singleton, pure_bind, hfirst, position_eq]
    exact ⟨0, rfl⟩

/-- It yields the node with the value. -/
theorem yields_put (hw : w.registry.StandardPaths) {node key value : Value C} (h : Takes node key)
    (hvalue : value.isPlaceholder = false) :
    (Generic.assoc key value node).Yields w (.ok (put key value node)) w :=
  (shows_put (fun _ => false) (fun _ _ => rfl) hw h hvalue).yields

/-- Emptying a map shows nothing and gives the empty map. -/
theorem shows_empty_map (watch : Func C → Bool)
    (hwatch : ∀ g : Func C, g.implements .empty = true → watch g = false)
    (hw : w.registry.StandardPaths) (entries : List (String × Value C)) :
    (Generic.empty (.map entries)).Shows watch w [] (.ok (.map [])) w :=
  Shows.method hwatch (hw.map .empty (by decide)) rfl (List.forall_mem_singleton.mpr rfl) ⟨0, rfl⟩

/-- It yields the empty map. -/
theorem yields_empty_map (hw : w.registry.StandardPaths) (entries : List (String × Value C)) :
    (Generic.empty (.map entries)).Yields w (.ok (.map [])) w :=
  (shows_empty_map (fun _ => false) (fun _ _ => rfl) hw entries).yields

/-- Writing along a path puts the value at its end. -/
theorem Writable.yields_assocIn (hw : w.registry.StandardPaths) {path : List (Value C)}
    {node value : Value C} (h : Writable path node) (hvalue : value.isPlaceholder = false) :
    (assocIn path value node).Yields w (.ok (Collection.putIn path value node)) w := by
  induction h with
  | last takes => exact yields_put hw takes hvalue
  | @step node key child path takes child_of rest ih =>
    obtain ⟨next, path, rfl⟩ := rest.exists_cons
    have hread := yields_getOrElse_of_get (yields_get_node hw takes.isNode takes.isPathKey)
    have hwrite := yields_put hw takes (isPlaceholder_of_isNode (rest.isNode_putIn value))
    rw [Collection.putIn, child_of.descend_eq]
    unfold assocIn
    refine hread.bind ?_
    rcases child_of.unwrapped with ⟨hchild, hne⟩ | ⟨hnil, rfl, entries, rfl⟩
    · rw [hchild]
      cases child with
      | nil => exact absurd rfl hne
      | _ => exact (yields_pure _ w).bind (ih.bind hwrite)
    · rw [hnil]
      exact (yields_empty_map hw entries).bind (ih.bind hwrite)

/-- In an empty map every path leads to nothing. -/
theorem yields_getIn_empty_map (hw : w.registry.StandardPaths) {path : List (Value C)}
    (hpath : path ≠ []) (hkeys : ∀ key ∈ path, key.isPathKey = true) :
    (getIn path (.map [])).Yields w (.ok Maybe.none) w := by
  cases path with
  | nil => exact absurd rfl hpath
  | cons key path =>
    have hget : (Generic.get key (.map [])).Yields w (.ok Maybe.none) w := by
      have hget := yields_get_node hw (rfl : (Value.map (C := C) []).isNode = true)
        (hkeys key List.mem_cons_self)
      rw [storedUnder_map] at hget
      cases hname : key.entryName? <;> rw [hname] at hget <;> exact hget
    cases path with
    | nil => exact hget
    | cons next path => exact hget.bind (yields_pure Maybe.none w)

/-- Reading goes on from a key with the node that the path goes on with there. -/
theorem Continues.yields_getIn_iff (hw : w.registry.StandardPaths) {node key key' child : Value C}
    {path : List (Value C)} (h : Continues node key child) (hnode : node.isNode = true)
    (hsame : SameEntry node key key') (hpath : path ≠ [])
    (hkeys : ∀ k ∈ key' :: path, k.isPathKey = true) (r : Except Error (Value C)) (w' : World C S) :
    (getIn (key' :: path) node).Yields w r w' ↔ (getIn path child).Yields w r w' := by
  obtain ⟨hkey', hpathKeys⟩ := List.forall_mem_cons.mp hkeys
  have hget := yields_get_node hw hnode hkey'
  rw [storedUnder_eq_of_sameEntry hsame] at hget
  obtain ⟨next, path, rfl⟩ := List.exists_cons_of_ne_nil hpath
  rw [getIn_cons_cons, hget.bind_iff]
  cases h with
  | held isNode stored =>
    rw [stored]
    cases child with
    | map _ | list _ => rfl
    | _ => cases isNode
  | present _ stored =>
    rw [stored]
    rfl
  | absent _ stored =>
    have hnone : Maybe.of (node.storedUnder key) = Maybe.none := by
      rcases stored with stored | stored <;> rw [stored] <;> rfl
    have hempty := yields_getIn_empty_map hw hpath hpathKeys
    rw [hnone]
    exact (yields_pure Maybe.none w).congr hempty r w'

/-- What is written at the end of a path is read back. -/
theorem Writable.yields_getIn_putIn (hw : w.registry.StandardPaths) {path : List (Value C)}
    {node : Value C} (h : Writable path node) (value : Value C) :
    (getIn path (Collection.putIn path value node)).Yields w (.ok (Maybe.of value)) w := by
  induction h with
  | @last node key takes =>
    have hget := yields_get_node hw ((isNode_put key value node).trans takes.isNode) takes.isPathKey
    rw [storedUnder_put takes] at hget
    exact hget
  | @step node key child path takes child_of rest ih =>
    have hwritten := continues_put takes (rest.isNode_putIn value)
    have hnode := (isNode_put key (Collection.putIn path value child) node).trans takes.isNode
    obtain ⟨next, path, rfl⟩ := rest.exists_cons
    rw [Collection.putIn, child_of.descend_eq]
    exact (hwritten.yields_getIn_iff hw hnode (.refl hnode key) (List.cons_ne_nil next path)
      (List.forall_mem_cons.mpr ⟨takes.isPathKey, rest.isPathKey⟩) _ w).mpr ih

/-- Two nodes that store the same under the first key of a path are read the same along the path. -/
theorem yields_getIn_iff_of_storedUnder_eq (hw : w.registry.StandardPaths) {node node' key : Value C}
    (hnode : node.isNode = true) (hnode' : node'.isNode = true) (hkey : key.isPathKey = true)
    (heq : node.storedUnder key = node'.storedUnder key) (path : List (Value C))
    (r : Except Error (Value C)) (w' : World C S) :
    (getIn (key :: path) node).Yields w r w' ↔ (getIn (key :: path) node').Yields w r w' := by
  have hget := yields_get_node hw hnode hkey
  have hget' := yields_get_node hw hnode' hkey
  rw [← heq] at hget'
  cases path with
  | nil => exact hget.congr hget' r w'
  | cons next path => rw [getIn_cons_cons, getIn_cons_cons, hget.bind_iff, hget'.bind_iff]

/-- What is read along a path that parts from the one that is written is the same as before. -/
theorem Parts.yields_getIn_putIn_iff (hw : w.registry.StandardPaths) {path path' : List (Value C)}
    {node : Value C} (h : Parts path path' node) (hwritable : Writable path node)
    (hkeys : ∀ k ∈ path', k.isPathKey = true) (value : Value C) (r : Except Error (Value C))
    (w' : World C S) :
    (getIn path' (Collection.putIn path value node)).Yields w r w' ↔
      (getIn path' node).Yields w r w' := by
  induction h with
  | @here node key key' path path' apart =>
    refine yields_getIn_iff_of_storedUnder_eq hw ?_ hwritable.isNode
      (hkeys key' List.mem_cons_self) ?_ path' r w'
    · exact hwritable.isNode_putIn value
    · exact storedUnder_put_of_not_same apart _
  | @later node key key' child path path' same child_of rest ih =>
    cases hwritable with
    | last _ => cases rest
    | @step _ _ child' _ takes child_of' hrest =>
      obtain rfl : child' = child := child_of'.descend_eq.symm.trans child_of.descend_eq
      have hpath' : path' ≠ [] := by
        rintro rfl
        cases rest
      have hwritten := continues_put takes (hrest.isNode_putIn value)
      have hnode := (isNode_put key (Collection.putIn path value child') node).trans takes.isNode
      rw [Collection.putIn, child_of.descend_eq,
        hwritten.yields_getIn_iff hw hnode (sameEntry_put.mpr same) hpath' hkeys,
        child_of.yields_getIn_iff hw takes.isNode same hpath' hkeys]
      exact ih hrest fun k hk => hkeys k (List.mem_cons_of_mem key' hk)

/-- Where a path can be written, writing a value that is no hole ends without an error and leaves the
world. What is read along the path is then the value as a `Maybe`; writing another value along the path
gives the same as writing it at once; and what is read along any path that parts from it, whatever comes
out, is the same as before the write. -/
theorem assocIn_along_path (hw : w.registry.StandardPaths) {path : List (Value C)} {node : Value C}
    (hwritable : Writable path node) {value other : Value C} (hvalue : value.isPlaceholder = false)
    (hother : other.isPlaceholder = false) :
    ∃ written, (assocIn path value node).Yields w (.ok written) w ∧
      (getIn path written).Yields w (.ok (Maybe.of value)) w ∧
      (∃ rewritten, (assocIn path other written).Yields w (.ok rewritten) w ∧
        (assocIn path other node).Yields w (.ok rewritten) w) ∧
      ∀ path', (∀ k ∈ path', k.isPathKey = true) → Parts path path' node →
        ∀ r w', (getIn path' written).Yields w r w' ↔ (getIn path' node).Yields w r w' := by
  refine ⟨putIn path value node, hwritable.yields_assocIn hw hvalue,
    hwritable.yields_getIn_putIn hw value, ⟨putIn path other node, ?_,
      hwritable.yields_assocIn hw hother⟩, fun path' hkeys hparts r w' =>
    hparts.yields_getIn_putIn_iff hw hwritable hkeys value r w'⟩
  have hagain := (hwritable.putIn value).yields_assocIn hw hother
  rw [hwritable.putIn_putIn] at hagain
  exact hagain

/-- A write that creates a level below the map in a list: what the level does not hold is read as
before, when the level was missing. -/
theorem assocIn_along_path_created :
    let node : Value Empty := .map [("a", .list [.map []])]
    let w : World Empty Unit := World.initial ()
    let level : List (Value Empty) := [.text "a", Methods.countValue 0, .text "b"]
    ∃ written, (assocIn (level ++ [.text "c"]) (.bool true) node).Yields w (.ok written) w ∧
      (getIn (level ++ [.text "c"]) written).Yields w (.ok (Maybe.some (.bool true))) w ∧
      ∀ r w', (getIn (level ++ [.text "d"]) written).Yields w r w' ↔
        (getIn (level ++ [.text "d"]) node).Yields w r w' := by
  intro node w level
  have hw : w.registry.StandardPaths := (Registry.standard_standard firstFreeId).standardPaths
  have hposition : Methods.position? (Methods.countValue (C := Empty) 0) = some 0 := by
    decide +kernel
  have htakes : Takes (.list [.map []] : Value Empty) (Methods.countValue 0) :=
    .position hposition (Nat.zero_lt_succ 0)
  have hheld : Continues (.list [.map []] : Value Empty) (Methods.countValue 0) (.map []) :=
    .held rfl (by simp [storedUnder, hposition])
  have hwritable : Writable (level ++ [.text "c"]) node :=
    .step (.entry rfl) (.held rfl rfl) (.step htakes hheld
      (.step (.entry rfl) (.absent rfl (.inl rfl)) (.last (.entry rfl))))
  have hparts : Parts (level ++ [.text "c"]) (level ++ [.text "d"]) node :=
    .later rfl (.held rfl rfl) (.later rfl hheld (.later rfl (.absent rfl (.inl rfl))
      (.here (by simp [SameEntry, entryName?]))))
  obtain ⟨written, hwrite, hread, -, hrest⟩ :=
    assocIn_along_path hw hwritable (rfl : (.bool true : Value Empty).isPlaceholder = false)
      (rfl : (.nil : Value Empty).isPlaceholder = false)
  exact ⟨written, hwrite, hread, hrest _ (by simp [level, isPathKey, entryName?, Methods.countValue])
    hparts⟩

end Collection

end DynamicDispatch
