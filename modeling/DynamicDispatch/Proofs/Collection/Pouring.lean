import DynamicDispatch.Proofs.Action.Agreement
import DynamicDispatch.Proofs.Collection.Sequence
import DynamicDispatch.Proofs.Registry.Lasting
import DynamicDispatch.Proofs.Value.Union

/-!
# Pairs of keys and values, folded, filtered and poured

The folds and filters over keys and values read each entry before they call their function on it, and
a filter adds what it keeps before it goes on. Reading and adding is not noticed by the function, so
all of them do the same as going through the list of pairs that the collection has to start with, and a
filter pours the pairs that it has selected into an empty collection in the end. Poured back, the parts
of a collection make it up again.
-/

namespace DynamicDispatch.Collection

variable {C S : Type}

open DynamicDispatch.Action Value

/-- What is read under a key of a collection. -/
def seenUnder (xs key : Value C) : Value C := (xs.storedUnder key).unwrapped

/-- The keys of a collection, each with what is read there. -/
def pairs (xs : Value C) : List (Value C × Value C) := xs.keys.map fun key => (key, seenUnder xs key)

/-- A pair of key and value as a list of both. -/
def pairValue (e : Value C × Value C) : Value C := .list [e.1, e.2]

/-- What a pair adds to a collection of some type: itself to a map, and its value to any other. -/
def entryOf (xs : Value C) (e : Value C × Value C) : Value C :=
  if isMap xs then pairValue e else e.2

/-- The pairs on which a function holds, or does not hold. It is called on each of them once, in order,
until one call ends with an error. -/
def selecting (f : Func C) (keep : Bool) :
    List (Value C × Value C) → Action C S (List (Value C × Value C))
  | [] => return []
  | e :: rest => do
    let holds := (← call f [e.1, e.2]).truthy
    let kept ← selecting f keep rest
    return if holds == keep then e :: kept else kept

/-- A collection of the same type without any element. -/
def emptied : Value C → Value C
  | .list _ => .list []
  | .text _ => .text ""
  | .map _ => .map []
  | v => v

/-- A collection with one more entry: a value behind a list, a text behind a text, a pair put into a map.
What is read at a position of a text is a character, or nil where the position's number is rounded to
one past the end; nil is joined as a word. -/
def joined (entry : Value C) : Value C → Value C
  | .list items => .list (items ++ [entry])
  | .text s =>
    match entry with
    | .text t => .text (s ++ t)
    | .nil => .text (s ++ "Nil")
    | _ => .text s
  | .map entries =>
    match entry with
    | .list [.text key, value] => .map (Entries.insert key value entries)
    | _ => .map entries
  | v => v

/-- A collection with more entries, one after the other. -/
def poured (entries : List (Value C)) (target : Value C) : Value C :=
  entries.foldl (fun target entry => joined entry target) target

/-- An entry can be joined to a collection. -/
inductive Joins : (entry target : Value C) → Prop
  | list {entry : Value C} {items : List (Value C)} (given : entry.isPlaceholder = false) :
      Joins entry (.list items)
  | text {s t : String} : Joins (.text t) (.text s)
  | nil {s : String} : Joins .nil (.text s)
  | pair {key : String} {value : Value C} {entries : List (String × Value C)} :
      Joins (.list [.text key, value]) (.map entries)

/-- What could be joined before another entry can be joined after it. -/
theorem Joins.joined {entry other target : Value C} (h : Joins entry target)
    (hother : Joins other target) : Joins entry (Collection.joined other target) := by
  cases h with
  | list given => exact .list given
  | text => cases hother <;> exact .text
  | nil => cases hother <;> exact .nil
  | pair =>
    cases hother
    exact .pair

/-- The pairs of a collection add entries that can be joined to an empty one, and to what they have
made of it. -/
theorem joins_entryOf {xs : Value C} (hxs : xs.Ordered)
    (hholes : ∀ x ∈ xs.elements, x.unwrapped.isPlaceholder = false) :
    ∀ e ∈ pairs xs, Joins (entryOf xs e) (emptied xs) := by
  intro e he
  obtain ⟨key, hkey, rfl⟩ := List.mem_map.mp he
  have hstored := hxs.storedUnder_eq_nil_or_mem key
  cases hxs with
  | list items =>
    refine .list ?_
    change (seenUnder (.list items) key).isPlaceholder = false
    rcases hstored with hnil | hmem
    · rw [seenUnder, hnil]
      rfl
    · exact hholes _ hmem
  | text s =>
    change Joins (seenUnder (.text s) key) (.text "")
    rcases hstored with hnil | hmem
    · rw [seenUnder, hnil]
      exact .nil
    · obtain ⟨c, -, hc⟩ := List.mem_map.mp hmem
      rw [seenUnder, ← hc]
      exact .text
  | @map entries _ =>
    obtain ⟨name, -, rfl⟩ := List.mem_map.mp hkey
    exact .pair

/-- The pairs of a map are its entries, as they come out of a look-up. -/
theorem pairs_map {entries : List (String × Value C)} (h : Entries.Sorted entries) :
    pairs (.map entries) =
      (entries.map fun e => (e.1, e.2.unwrapped)).map fun e => (.text e.1, e.2) := by
  rw [h.map_eq_map_find? unwrapped .nil, pairs, keys]
  simp only [List.map_map]
  rfl

section Poured

/-- Poured into a list, values come to stand behind it. -/
theorem poured_list (items before : List (Value C)) :
    poured items (.list before) = .list (before ++ items) := by
  induction items generalizing before with
  | nil =>
    rw [List.append_nil]
    rfl
  | cons v items ih =>
    have hrest := ih (before ++ [v])
    rw [List.append_assoc] at hrest
    exact hrest

/-- Poured into a text, characters come to stand behind it. -/
theorem poured_text (cs : List Char) (s : String) :
    poured (cs.map Methods.charValue) (.text s : Value C) = .text (s ++ String.ofList cs) := by
  induction cs generalizing s with
  | nil =>
    rw [String.ofList_nil, String.append_empty]
    rfl
  | cons c cs ih =>
    have hrest := ih (s ++ String.singleton c)
    rw [String.append_assoc, ← String.ofList_cons] at hrest
    exact hrest

/-- Poured into a map, pairs are all put in. -/
theorem poured_map (added entries : List (String × Value C)) :
    poured (added.map fun e => pairValue (.text e.1, e.2)) (.map entries) =
      .map (Entries.putAll added entries) := by
  induction added generalizing entries with
  | nil => rfl
  | cons e added ih => exact ih (Entries.insert e.1 e.2 entries)

end Poured

variable [Embedding C S] {w : World C S} {watch : Func C → Bool}

section Methods

variable (watch)

omit [Embedding C S] in
/-- Neither the entry nor the collection is a hole. -/
theorem Joins.given {entry target : Value C} (h : Joins entry target) :
    ∀ v ∈ [entry, target], v.isPlaceholder = false := by
  rw [List.forall_mem_cons, List.forall_mem_singleton]
  cases h with
  | list given => exact ⟨given, rfl⟩
  | text | nil | pair => exact ⟨rfl, rfl⟩

/-- Joining shows nothing and gives the collection with the entry. -/
theorem Joins.shows_conj (hwatch : ∀ m ∈ [Method.conj, .render], ∀ g : Func C,
      g.implements m = true → watch g = false) (hw : w.registry.Standard) {entry target : Value C}
    (h : Joins entry target) :
    (Generic.conj entry target).Shows watch w [] (.ok (Collection.joined entry target)) w := by
  have hconj := hwatch .conj (by decide)
  have hgiven := h.given
  cases h with
  | list _ => exact Shows.method hconj (hw .list .list .conj rfl) rfl hgiven ⟨0, rfl⟩
  | @text s t =>
    have hjoin : String.ofList s.toList ++ t = s ++ t := by rw [String.ofList_toList]
    refine Shows.method hconj (hw .text .text .conj rfl) rfl hgiven ?_
    exact shows_pure_iff.mpr ⟨rfl, congrArg (fun s => Except.ok (Value.text s)) hjoin.symm, rfl⟩
  | @nil s =>
    have hword : (Method.render.call [.nil]).Shows watch w [] (.ok (.text "Nil")) w :=
      Shows.method (hwatch .render (by decide)) (hw .nil .nil .render rfl) rfl
        (List.forall_mem_singleton.mpr rfl) ⟨0, rfl⟩
    have hrender : (Generic.render .nil).Shows watch w [] (.ok "Nil") w :=
      hword.bind_iff.mpr (shows_pure _ _)
    have hjoin : String.ofList s.toList ++ "Nil" = s ++ "Nil" := by rw [String.ofList_toList]
    refine Shows.method hconj (hw .text .text .conj rfl) rfl hgiven ?_
    refine (hrender.bind_iff (f := fun t => pure (Value.text (String.ofList s.toList ++ t)))).mpr ?_
    exact shows_pure_iff.mpr ⟨rfl, congrArg (fun s => Except.ok (Value.text s)) hjoin.symm, rfl⟩
  | pair => exact Shows.method hconj (hw .map .map .conj rfl) rfl hgiven ⟨0, rfl⟩

/-- Emptying shows nothing. -/
theorem shows_empty watch (hwatch : ∀ g : Func C, g.implements .empty = true → watch g = false)
    (hw : w.registry.Standard) {xs : Value C} (hxs : xs.Ordered) :
    (Generic.empty xs).Shows watch w [] (.ok (emptied xs)) w := by
  refine Shows.method hwatch (provides_traversal hw hxs (by decide)) rfl
    (List.forall_mem_singleton.mpr hxs.isPlaceholder_eq) ?_
  cases hxs <;> exact ⟨0, rfl⟩

/-- The empty collection is computed. -/
theorem computes_empty (hw : w.registry.Standard) {xs : Value C} (hxs : xs.Ordered) :
    (Generic.empty xs).Computes w (· = emptied xs) :=
  Computes.of_yields fun n =>
    (shows_empty (w := w.minted n) (fun _ => false) (fun _ _ => rfl) hw hxs).yields

/-- Listing the keys shows nothing. -/
theorem shows_keyList watch (hwatch : ∀ g : Func C, g.implements .keys = true → watch g = false)
    (hw : w.registry.Standard) {xs : Value C} (hxs : xs.Ordered) :
    (keyList xs).Shows watch w [] (.ok xs.keys) w :=
  shows_keyList_of_provides _ hwatch (lookupFamily?_ordered hxs) (provides_traversal hw hxs (by decide))

/-- Reading a key shows nothing and gives the value of its pair. -/
theorem shows_read watch (hwatch : ∀ g : Func C, g.implements .get = true → watch g = false)
    (hw : w.registry.Standard) {xs : Value C} (hxs : xs.Ordered) {e : Value C × Value C}
    (he : e ∈ pairs xs) : (getOrElse e.1 .nil xs).Shows watch w [] (.ok e.2) w := by
  obtain ⟨key, hkey, rfl⟩ := List.mem_map.mp he
  rw [seenUnder, ← unwrappedOr_nil]
  exact shows_getOrElse_of_get (shows_get_of_provides _ hwatch (lookupFamily?_ordered hxs)
    (provides_traversal hw hxs (by decide)) (isPlaceholder_key hkey)) .nil

omit [Embedding C S] in
/-- The first parts of the pairs are the keys. -/
theorem map_fst_pairs (xs : Value C) : (pairs xs).map (·.1) = xs.keys := by
  rw [pairs, List.map_map]
  exact List.map_id _

/-- The pairs are computed. -/
theorem computes_kvp (hw : w.registry.Standard) {xs : Value C} (hxs : xs.Ordered) :
    (kvp xs).Computes w (· = .list ((pairs xs).map pairValue)) := by
  have hkeys : (keyList xs).Computes w (· = xs.keys) := Computes.of_yields fun n =>
    (shows_keyList (w := w.minted n) (fun _ => false) (fun _ _ => rfl) hw hxs).yields
  have hpairs : (xs.keys.mapM fun key => do
      return Value.list [key, ← getOrElse key .nil xs] : Action C S _).Computes w
        (· = xs.keys.map fun key => pairValue (key, seenUnder xs key)) := by
    refine Computes.mapM fun key hkey => ?_
    have hread : (getOrElse key .nil xs).Computes w (· = seenUnder xs key) :=
      Computes.of_yields fun n => (shows_read (w := w.minted n) (fun _ => false) (fun _ _ => rfl) hw hxs
        (List.mem_map_of_mem hkey)).yields
    exact hread.bind_eq (Computes.pure rfl)
  rw [pairs, List.map_map]
  exact hkeys.bind_eq (hpairs.bind_eq (Computes.pure rfl))

/-- Pouring is joining one entry after the other. -/
theorem computes_into (hw : w.registry.Standard) {entries : List (Value C)} {target : Value C}
    (htarget : target.isPlaceholder = false) (hentries : ∀ v ∈ entries, Joins v target) :
    (into target (.list entries)).Computes w (· = poured entries target) := by
  refine Computes.newFunc_bind fun id => ?_
  have hgiven : ∀ v ∈ [.func ⟨id, "conj", 2, .conjStep⟩, target, .list entries],
      v.isPlaceholder = false := isPlaceholder_foldArguments (.list entries) _ htarget
  refine Computes.method (hw .list .list .foldl rfl) rfl hgiven ?_
  change (Methods.fold ⟨id, "conj", 2, .conjStep⟩ target entries).Computes w _
  clear hgiven htarget
  induction entries generalizing target with
  | nil => exact Computes.pure rfl
  | cons v entries ih =>
    obtain ⟨hfirst, hrest⟩ := List.forall_mem_cons.mp hentries
    have hstep : (call ⟨id, "conj", 2, .conjStep⟩ [v, target]).Computes w
        (· = joined v target) := Computes.call (Computes.of_yields fun n =>
      (hfirst.shows_conj (w := w.minted n) (fun _ => false) (fun _ _ _ _ => rfl) hw).yields)
    rw [Methods.fold, List.foldlM_cons]
    exact hstep.bind_eq (ih fun v hv => (hrest v hv).joined hfirst)

end Methods

section Traversals

variable {P : World C S → Prop} {f : Func C} {xs : Value C} {items : List (Value C × Value C)}
  (hstandard : ∀ w, P w → w.registry.Standard) (hxs : xs.Ordered)

include hstandard hxs

/-- A fold over keys agrees with the fold over the pairs. -/
theorem agreeOn_foldKeys (hwatch : ∀ g : Func C, g.implements .get = true → watch g = false)
    (hitems : ∀ e ∈ items, e ∈ pairs xs)
    (hleaves : ∀ args, (call f args : Action C S (Value C)).Leaves watch P fun _ => True)
    (init : Value C) :
    AgreeOn watch P ((items.map (·.1)).foldlM (foldKey f xs) init)
      (items.foldlM (fun acc e => call f [e.1, e.2, acc]) init) := by
  refine AgreeOn.foldlM (fun acc e he => ?_) (fun acc e _ => hleaves _) init
  exact AgreeOn.of_silent (fun w hw => shows_read watch hwatch (hstandard w hw) hxs (hitems e he))
    (.refl _)

variable (keep : Bool)
  (hleaves : ∀ k v, (call f [k, v] : Action C S (Value C)).Leaves watch P fun _ => True)

include hleaves

/-- What a filter keeps is added as it goes on; it might as well be selected first and poured then.
The induction is on the pairs to come: they can be joined to what the earlier ones have made. -/
theorem agreeOn_keepKeys (hwatch : ∀ m ∈ [Method.get, .conj, .render], ∀ g : Func C,
      g.implements m = true → watch g = false) {acc : Value C}
    (hitems : ∀ e ∈ items, e ∈ pairs xs) (hjoins : ∀ e ∈ items, Joins (entryOf xs e) acc) :
    AgreeOn watch P ((items.map (·.1)).foldlM (keepKey f keep xs) acc)
      (do return poured ((← selecting f keep items).map (entryOf xs)) acc) := by
  induction items generalizing acc with
  | nil => exact .refl _
  | cons e items ih =>
    obtain ⟨he, hitems⟩ := List.forall_mem_cons.mp hitems
    obtain ⟨hfirst, hrest⟩ := List.forall_mem_cons.mp hjoins
    have hread := fun w (hw : P w) =>
      shows_read watch (hwatch .get (by decide)) (hstandard w hw) hxs he
    have hconj := fun w (hw : P w) =>
      hfirst.shows_conj watch (fun m hm => hwatch m (List.mem_cons_of_mem _ hm)) (hstandard w hw)
    rw [List.map_cons, List.foldlM_cons, selecting]
    simp only [keepKey, LawfulMonad.bind_assoc, LawfulMonad.pure_bind]
    refine AgreeOn.of_silent hread (AgreeOn.after (hleaves _ _) fun holds _ => ?_)
    cases hkeep : holds.truthy == keep with
    | true =>
      simp only [if_true, List.map_cons]
      exact AgreeOn.of_silent hconj (ih hitems fun e he => (hrest e he).joined hfirst)
    | false =>
      simp only [Bool.false_eq_true, if_false, LawfulMonad.pure_bind]
      exact ih hitems hrest

/-- A filter might as well select all that it keeps first and pour it then. -/
theorem agreeOn_keepKv (hwatch : ∀ m ∈ [Method.keys, .empty, .get, .conj, .render], ∀ g : Func C,
      g.implements m = true → watch g = false)
    (hholes : ∀ x ∈ xs.elements, x.unwrapped.isPlaceholder = false) :
    AgreeOn watch P (keepKv f keep xs)
      (do return poured ((← selecting f keep (pairs xs)).map (entryOf xs)) (emptied xs)) := by
  have hread : ∀ m ∈ [Method.get, .conj, .render], ∀ g : Func C,
      g.implements m = true → watch g = false :=
    fun m hm => hwatch m (List.mem_cons_of_mem _ (List.mem_cons_of_mem _ hm))
  have hkeys := hwatch .keys (by decide)
  have hempty := hwatch .empty (by decide)
  have hloop := agreeOn_keepKeys hstandard hxs keep hleaves hread (fun e he => he)
    (joins_entryOf hxs hholes)
  rw [map_fst_pairs] at hloop
  refine AgreeOn.of_silent (fun w hw => shows_keyList watch hkeys (hstandard w hw) hxs) ?_
  exact AgreeOn.of_silent (fun w hw => shows_empty watch hempty (hstandard w hw) hxs) hloop

omit hstandard hxs in
/-- What has been selected was there, and such a world is left. -/
theorem leaves_selecting (items : List (Value C × Value C)) :
    (selecting f keep items : Action C S _).Leaves watch P fun kept => ∀ e ∈ kept, e ∈ items := by
  induction items with
  | nil => exact Leaves.pure fun _ he => he
  | cons e items ih =>
    refine (hleaves _ _).bind fun holds _ => ih.bind fun kept hkept => Leaves.pure ?_
    have hlater : ∀ e' ∈ kept, e' ∈ e :: items := fun e' he' => List.mem_cons_of_mem e (hkept e' he')
    split
    · exact List.forall_mem_cons.mpr ⟨List.mem_cons_self, hlater⟩
    · exact hlater

end Traversals

/-- Pairs, or their values, poured into an empty collection of the type that they come from. -/
def regathered (xs : Value C) (kept : List (Value C × Value C)) : Action C S (Value C) := do
  into (← Generic.empty xs) (.list (kept.map (entryOf xs)))

/-- Pairs of a collection can be poured into an empty one. -/
theorem computes_regathered (hw : w.registry.Standard) {xs : Value C} (hxs : xs.Ordered)
    (hholes : ∀ x ∈ xs.elements, x.unwrapped.isPlaceholder = false) {kept : List (Value C × Value C)}
    (hkept : ∀ e ∈ kept, e ∈ pairs xs) :
    (regathered xs kept).Computes w (· = poured (kept.map (entryOf xs)) (emptied xs)) := by
  have htarget : (emptied xs).isPlaceholder = false := by cases hxs <;> rfl
  refine (computes_empty hw hxs).bind_eq (computes_into hw htarget ?_)
  rw [List.forall_mem_map]
  exact fun e he => joins_entryOf hxs hholes e (hkept e he)

/-- One sees of an action that a function is called on the pairs of a collection, until one call ends with
an error; when none does, the action gives what pouring the selected pairs gives. -/
def PoursSelected (watch : Func C → Bool) (w : World C S) (f : Func C) (keep : Bool) (xs : Value C)
    (p : Action C S (Value C)) : Prop :=
  ∀ calls w',
    (∀ ys, p.Shows watch w calls (.ok ys) w' ↔
      ∃ kept, (selecting f keep (pairs xs)).Shows watch w calls (.ok kept) w' ∧
        (regathered xs kept).Computes w' (· = ys)) ∧
    ∀ e, p.Shows watch w calls (.error e) w' ↔
      (selecting f keep (pairs xs)).Shows watch w calls (.error e) w'

/-- Every call leaves a world with the standard methods. -/
theorem leaves_call (watch : Func C → Bool) (hhost : HostKeeps S (Registry.Standard (C := C)))
    (f : Func C) (args : List (Value C)) :
    (call f args : Action C S (Value C)).Leaves watch (fun w => w.registry.Standard) fun _ => True :=
  hhost.leaves watch (Terms.tolerates_registering.call f args)

/-- This is what one sees of a filter. -/
theorem poursSelected_keepKv (hhost : HostKeeps S (Registry.Standard (C := C)))
    (hwatch : ∀ m ∈ [Method.keys, .empty, .get, .conj, .render], ∀ g : Func C,
      g.implements m = true → watch g = false) (hw : w.registry.Standard) {xs : Value C}
    (hxs : xs.Ordered) (hholes : ∀ x ∈ xs.elements, x.unwrapped.isPlaceholder = false) (f : Func C)
    (keep : Bool) : PoursSelected watch w f keep xs (keepKv f keep xs) := by
  have hleaves := fun k v => leaves_call watch hhost f [k, v]
  have hagree := agreeOn_keepKv (fun _ hw => hw) hxs keep hleaves hwatch hholes
  have hshows := fun calls r w' => (hagree w hw calls r w').trans shows_bind_pure_iff
  have hselects := leaves_selecting keep hleaves (pairs xs) w hw
  refine fun calls w' => ⟨fun ys => (hshows calls (.ok ys) w').trans ⟨?_, ?_⟩, fun e =>
    (hshows calls (.error e) w').trans ⟨?_, fun h => ⟨.error e, h, rfl⟩⟩⟩
  · rintro ⟨_ | kept, hselected, heq⟩
    · cases heq
    · obtain ⟨hw', hkept⟩ := hselects _ _ _ hselected
      obtain rfl := Except.ok.inj heq
      exact ⟨kept, hselected, computes_regathered hw' hxs hholes hkept⟩
  · rintro ⟨kept, hselected, hpoured⟩
    obtain ⟨hw', hkept⟩ := hselects _ _ _ hselected
    refine ⟨.ok kept, hselected, congrArg Except.ok ?_⟩
    obtain ⟨_, n, hyields, rfl⟩ := hpoured 0
    obtain ⟨_, n', hyields', rfl⟩ := computes_regathered hw' hxs hholes hkept 0
    exact Except.ok.inj (hyields.unique hyields').1
  · rintro ⟨_ | kept, hselected, heq⟩
    · obtain rfl := Except.error.inj heq
      exact hselected
    · cases heq

/-- The pairs of a map, poured into an empty map, make it up again, as it is seen by look-ups. -/
theorem computes_kvp_into (hw : w.registry.Standard) {entries : List (String × Value C)}
    (hsorted : Entries.Sorted entries) :
    (kvp (.map entries) >>= into (.map [])).Computes w
      (· = .map (entries.map fun e => (e.1, e.2.unwrapped))) := by
  have hkvp := computes_kvp hw (.map hsorted)
  have hseen : Entries.Sorted (entries.map fun e => (e.1, e.2.unwrapped)) :=
    List.pairwise_map.mpr hsorted
  rw [pairs_map hsorted, List.map_map] at hkvp
  have hjoins : ∀ v ∈ (entries.map fun e => (e.1, e.2.unwrapped)).map
      fun e => pairValue (.text e.1, e.2), Joins v (.map []) := by
    rw [List.forall_mem_map]
    exact fun _ _ => .pair
  have hinto := computes_into hw rfl hjoins
  rw [poured_map, hseen.putAll_nil] at hinto
  exact hkvp.bind_eq hinto

/-- The values of a list or a text, poured into an empty one, make it up again. -/
theorem computes_vals_into (hw : w.registry.Standard) {xs : Value C} (hxs : xs.Ordered)
    (hmap : isMap xs = false) (hholes : ∀ x ∈ xs.elements, x.isPlaceholder = false) :
    (do into (← Generic.empty xs) (← vals xs)).Computes w (· = xs) := by
  refine (computes_empty hw hxs).bind_eq ((computes_vals hw hxs).bind_eq ?_)
  cases hxs with
  | list items =>
    have hjoins : ∀ v ∈ items, Joins v (.list []) := fun v hv => .list (hholes v hv)
    have hinto := computes_into hw rfl hjoins
    rwa [poured_list, List.nil_append] at hinto
  | text s =>
    have hjoins : ∀ v ∈ s.toList.map (Methods.charValue (C := C)), Joins v (.text "") := by
      rw [List.forall_mem_map]
      exact fun _ _ => .text
    have hinto := computes_into hw rfl hjoins
    rwa [poured_text, String.empty_append, String.ofList_toList] at hinto
  | map _ => cases hmap

/-- The folds and filters over keys and values follow the pairs of a list, text or sorted map that has no
holes. The folds are seen as the function called on the pairs, from the first or from the last, with the
result so far, until one call ends with an error. A filter is seen as the function called on each pair in
order; when none of the calls ends with an error, it gives what pouring the selected pairs, or their
values, into an empty collection gives. The pairs of a map poured into an empty one make it up as a
look-up shows it, and as it is when it stores no `Maybe`; so do the values of a list or text. -/
theorem keyed_traversals_follow_pairs (hhost : HostKeeps S (Registry.Standard (C := C)))
    (hw : w.registry.Standard) {xs : Value C} (hxs : xs.Ordered)
    (hholes : ∀ x ∈ xs.elements, x.unwrapped.isPlaceholder = false) :
    (kvp xs).Computes w (· = .list ((pairs xs).map pairValue)) ∧
    (∀ watch : Func C → Bool, (∀ m ∈ [Method.keys, .get], ∀ g : Func C,
        g.implements m = true → watch g = false) → ∀ (f : Func C) (init : Value C) calls r w',
      ((foldlKv f init xs).Shows watch w calls r w' ↔
        ((pairs xs).foldlM (fun acc e => call f [e.1, e.2, acc]) init).Shows watch w calls r w') ∧
      ((foldrKv f init xs).Shows watch w calls r w' ↔
        ((pairs xs).reverse.foldlM (fun acc e => call f [e.1, e.2, acc]) init).Shows watch w
          calls r w')) ∧
    (∀ watch : Func C → Bool, (∀ m ∈ [Method.keys, .empty, .get, .conj, .render], ∀ g : Func C,
        g.implements m = true → watch g = false) → ∀ f : Func C,
      PoursSelected watch w f true xs (filterKv f xs) ∧
        PoursSelected watch w f false xs (removeKv f xs)) ∧
    (∀ entries, xs = .map entries →
      (kvp xs >>= into (.map [])).Computes w
        (· = .map (entries.map fun e => (e.1, e.2.unwrapped))) ∧
      ((∀ e ∈ entries, UnionType.maybe.contains e.2 = false) →
        (kvp xs >>= into (.map [])).Computes w (· = xs))) ∧
    (isMap xs = false → (do into (← Generic.empty xs) (← vals xs)).Computes w (· = xs)) := by
  refine ⟨computes_kvp hw hxs, fun watch hwatch f init calls r w' => ?folds, fun watch hwatch f =>
    ⟨poursSelected_keepKv hhost hwatch hw hxs hholes f true,
      poursSelected_keepKv hhost hwatch hw hxs hholes f false⟩, ?map, fun hmap => ?values⟩
  case folds =>
    have hkeys := shows_keyList watch (hwatch .keys (by decide)) hw hxs
    have hget := hwatch .get (by decide)
    have hleaves := leaves_call watch hhost f
    have hfirst := agreeOn_foldKeys (fun _ hw => hw) hxs hget (fun e he => he) hleaves init
    have hlast := agreeOn_foldKeys (fun _ hw => hw) hxs hget (fun e he => List.mem_reverse.mp he)
      hleaves init
    rw [map_fst_pairs] at hfirst
    rw [List.map_reverse, map_fst_pairs] at hlast
    exact ⟨hkeys.bind_iff.trans (hfirst w hw calls r w'), hkeys.bind_iff.trans (hlast w hw calls r w')⟩
  case map =>
    rintro entries rfl
    cases hxs with
    | map hsorted =>
      have hinto := computes_kvp_into hw hsorted
      refine ⟨hinto, fun hmaybe => ?_⟩
      have hself : (entries.map fun e => (e.1, e.2.unwrapped)) = entries :=
        map_eq_self_iff.mpr fun e he => by rw [unwrapped_eq_self (hmaybe e he)]
      rwa [hself] at hinto
  case values =>
    refine computes_vals_into hw hxs hmap fun x hx => ?_
    have hunwrapped := hholes x hx
    cases x <;> first | rfl | cases hunwrapped

/-- A map that stores a `Maybe`, folded and filtered by a function that gives the value, and a text, at
the start. -/
theorem keyed_traversals_follow_pairs_value :
    let w : World Empty Unit := World.initial ()
    let value : Func Empty := ⟨0, "value", 2, .onValue ⟨1, "pass", 1, .pipe []⟩⟩
    let methods : List Method := [.keys, .empty, .get, .conj, .render]
    let watch : Func Empty → Bool := fun g => !methods.any g.implements
    let xs : Value Empty := .map [("a", Maybe.some (.bool true)), ("b", Maybe.none)]
    let chars : Value Empty := .text "ab"
    (foldlKv value .nil xs).Shows watch w
        [⟨value, [.text "a", .bool true, .nil], .ok (.bool true)⟩,
          ⟨value, [.text "b", .nil, .bool true], .ok .nil⟩] (.ok .nil) w ∧
      (filterKv value xs).Shows watch w [⟨value, [.text "a", .bool true], .ok (.bool true)⟩,
          ⟨value, [.text "b", .nil], .ok .nil⟩] (.ok (.map [("a", .bool true)])) w ∧
      (kvp xs >>= into (.map [])).Computes w (· = .map [("a", .bool true), ("b", .nil)]) ∧
      (do into (← Generic.empty chars) (← vals chars)).Computes w (· = chars) := by
  intro w value methods watch xs chars
  have hhost : HostKeeps Unit (Registry.Standard (C := Empty)) := fun c => nomatch c
  have hw : w.registry.Standard := Registry.standard_standard firstFreeId
  clear_value w
  have hwatch : ∀ m ∈ methods, ∀ g : Func Empty, g.implements m = true → watch g = false :=
    fun m hm g hg => by simp only [watch, List.any_eq_true.mpr ⟨m, hm, hg⟩, Bool.not_true]
  have hxs : xs.Ordered := .map (by decide)
  have hholes : ∀ x ∈ xs.elements, x.unwrapped.isPlaceholder = false := by decide
  obtain ⟨-, hfolds, hfilters, hmap, -⟩ := keyed_traversals_follow_pairs hhost hw hxs hholes
  obtain ⟨-, -, -, -, hvalues⟩ := keyed_traversals_follow_pairs hhost hw (.text "ab") (by decide)
  refine ⟨?_, ?_, (hmap _ rfl).1, hvalues rfl⟩
  · refine (hfolds watch (fun m hm => hwatch m (by revert m; decide)) value .nil _ _ _).1.mpr ?_
    exact ⟨3, rfl⟩
  · refine (((hfilters watch hwatch value).1 _ w).1 _).mpr ⟨[(.text "a", .bool true)], ⟨3, rfl⟩, ?_⟩
    have hkept : ∀ e ∈ [(.text "a", .bool true)], e ∈ pairs xs :=
      List.forall_mem_singleton.mpr (.head _)
    exact computes_regathered hw hxs hholes hkept

end DynamicDispatch.Collection
