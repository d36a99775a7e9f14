import DynamicDispatch.Proofs.Action.Agreement
import DynamicDispatch.Proofs.Collection.Path
import DynamicDispatch.Proofs.Registry.Lasting
import DynamicDispatch.Proofs.Value.Container
import DynamicDispatch.Proofs.Value.Union

/-!
# Changes made key by key

A nested set of changes is made by going through its keys and writing each into what the earlier ones
have left. Every key comes once, so what is read under it is what was stored there from the start: the
changes are made as if at the same time, each seeing the original, and are then put in together.
-/

namespace DynamicDispatch

variable {C S : Type}

/-- The standard methods are as they were installed, and no further type can be written to. -/
structure Registry.StandardWriting (r : Registry C) : Prop where
  standard : r.Standard
  unextended : r.Unextended .assoc

/-- The standard registry is one. -/
theorem Registry.standardWriting_standard (n : Nat) :
    ((Registry.standard (C := C)).run n).1.StandardWriting :=
  ⟨standard_standard n, unextended_standard .assoc n⟩

namespace Collection

open DynamicDispatch.Action Value

section Writing

/-- What a family writes is no hole. -/
theorem keeps_assoc (family : Family) (args : List (Value C)) :
    Terms.any.Keeps (fun v => v.isPlaceholder = false)
      (family.implementation .assoc args : Action C S (Value C)) := by
  cases family with
  | list =>
    refine (Terms.Keeps.any _).bind fun xs _ => ?_
    cases Methods.position? (argument args 0) <;> exact .pure rfl
  | text =>
    refine (Terms.Keeps.any _).bind fun cs _ => (Terms.Keeps.any _).bind fun replacement _ => ?_
    cases Methods.position? (argument args 0) <;> exact .pure rfl
  | map => exact (Terms.Keeps.any _).bind fun entries _ => (Terms.Keeps.any _).bind fun key _ => .pure rfl
  | _ => exact .fail _

variable [Embedding C S] {w w' : World C S}

/-- Where no further type can be written to, what a write gives is no hole: it is a list, a text, a map,
or a function that waits for a hole among the arguments to be filled. -/
theorem isPlaceholder_of_yields_assoc (hw : w.registry.StandardWriting) {key value xs ys : Value C}
    (h : (Generic.assoc key value xs).Yields w (.ok ys) w') : ys.isPlaceholder = false := by
  obtain ⟨calls, h⟩ := (yields_iff_shows fun _ => false).mp h
  cases hfamily : Registry.provider? (Registry.standardParts C) xs.typeKey .assoc with
  | none =>
    have hiterable : xs.isIterable = false := by
      cases xs <;> first | rfl | cases hfamily
    have hresolve : w.registry.resolve xs Method.assoc.name = none := by
      rw [Registry.resolve, hw.unextended _ (typeKey_ne_iterator xs) hfamily, hiterable]
      rfl
    have hmissing : (Generic.assoc key value xs).Shows (fun _ => false) w [] _ w :=
      Protocol.shows_call_of_missing (Method.method?_protocol .assoc) hresolve
    obtain ⟨-, hresult, -⟩ := h.unique hmissing
    cases hresult
  | some family =>
    obtain ⟨id, next, hlookup⟩ := hw.standard _ _ _ hfamily
    let f : Func C := ⟨id, Method.assoc.name, Method.assoc.arity, .builtin family .assoc⟩
    have hresolve : w.registry.resolve xs Method.assoc.name = some ((curry f).run next).1 := by
      rw [Registry.resolve, hlookup]
    have hcall : (call ((curry f).run next).1 [key, value, xs]).Shows (fun _ => false) w calls _ w' :=
      (Protocol.shows_call_iff_of_resolve (Method.method?_protocol .assoc) hresolve _ _ _).mp h
    have hcollects : Currying.Collects 3 f [] ((curry f).run next).1 :=
      curryN_collects (by decide) f next
    have hbody := hcall.yields.of_call
    rw [hcollects.body_eq, Currying.fill_nil] at hbody
    by_cases hgiven : 3 ≤ Currying.given ([key, value, xs].take 3)
    · rw [Currying.supply_of_le_given hgiven] at hbody
      exact (keeps_assoc family [key, value, xs]).yields hbody.of_call
    · obtain ⟨hresult, -⟩ := hbody.unique
        (Currying.yields_supply_of_given_lt (Nat.lt_of_not_le hgiven) w)
      obtain rfl := Except.ok.inj hresult
      rfl

end Writing

/-- What one change makes of the value under its key in a map: nested changes are made in what is read
there, or in an empty map when it is absent; a function is applied to what is read there, or to nil; any
other change takes the place of the value. -/
def renewed (entries : List (String × Value C)) (change : String × Value C) : Action C S (Value C) :=
  let stored := (Entries.find? change.1 entries).getD .nil
  match change.2.unwrapped with
  | .map nested => evolve (.map nested) (stored.unwrappedOr (.map []))
  | .func f => call f [stored.unwrapped]
  | other => return other

/-- What all changes make of a map, one after the other, each of them from the map as it was. -/
def renewals (changes entries : List (String × Value C)) : Action C S (List (String × Value C)) :=
  changes.mapM fun change => do return (change.1, ← renewed entries change)

/-- A map with all that its changes give put in together. -/
def changedTogether (changes entries : List (String × Value C)) : Action C S (Value C) := do
  return .map (Entries.putAll (← renewals changes entries) entries)

section Shown

variable [Embedding C S] {watch : Func C → Bool} {w w₁ w' : World C S} {calls later : List (SeenCall C)}
  {changes entries given : List (String × Value C)}

/-- What is seen of changes is what is seen of the first one, and then of the others. -/
theorem shows_renewals_cons {change : String × Value C} {v : Value C}
    (hfirst : (renewed entries change).Shows watch w calls (.ok v) w₁)
    (hrest : (renewals changes entries).Shows watch w₁ later (.ok given) w') :
    (renewals (change :: changes) entries).Shows watch w (calls ++ later)
      (.ok ((change.1, v) :: given)) w' := by
  rw [renewals, List.mapM_cons]
  exact (shows_bind_pure_iff.mpr ⟨.ok v, hfirst, rfl⟩).bind
    (shows_bind_pure_iff.mpr ⟨.ok given, hrest, rfl⟩)

/-- Nothing more is seen of putting in what they give. -/
theorem shows_changedTogether (h : (renewals changes entries).Shows watch w calls (.ok given) w') :
    (changedTogether changes entries).Shows watch w calls
      (.ok (.map (Entries.putAll given entries))) w' :=
  shows_bind_pure_iff.mpr ⟨.ok given, h, rfl⟩

end Shown

section Loop

variable [Embedding C S] {watch : Func C → Bool} {P : World C S → Prop}
  {changes entries : List (String × Value C)}

/-- What is read under a text in a map. -/
theorem shows_getOrElse_text (hwatch : ∀ g : Func C, g.implements .get = true → watch g = false)
    {w : World C S} (hw : w.registry.Standard) (key : String) (fallback : Value C)
    (entries : List (String × Value C)) :
    (getOrElse (.text key) fallback (.map entries)).Shows watch w []
      (.ok (((Entries.find? key entries).getD .nil).unwrappedOr fallback)) w :=
  shows_getOrElse_of_get (x := (Entries.find? key entries).getD .nil)
    (shows_get_of_provides _ hwatch rfl (hw .map .map .get rfl) rfl) fallback

variable (hwatch : ∀ m ∈ [Method.get, .keys, .assoc, .empty], ∀ g : Func C,
    g.implements m = true → watch g = false)
  (hstandard : ∀ w, P w → w.registry.Standard)

include hwatch hstandard

/-- A change does the same to what earlier changes have left as to the map as it was, if they have left
alone what is under its key. -/
theorem agreeOn_changed {change : String × Value C} {acc : List (String × Value C)}
    (hkept : Entries.find? change.1 acc = Entries.find? change.1 entries) :
    AgreeOn watch P (changed (.text change.1) change.2.unwrapped (.map acc))
      (renewed entries change) := by
  have hread := fun fallback w (hw : P w) => shows_getOrElse_text
    (hwatch .get (by decide)) (hstandard w hw) change.1 fallback acc
  rw [hkept] at hread
  unfold changed renewed
  cases change.2.unwrapped with
  | map nested =>
    refine AgreeOn.of_silent (fun w hw => shows_empty_map watch (hwatch .empty (by decide))
      (hstandard w hw).standardPaths acc) ?_
    refine AgreeOn.of_silent (hread (.map [])) ?_
    exact AgreeOn.of_alike (alike_request (q := .evolve (.map nested) _) fun _ => rfl)
  | func f =>
    have hread := hread .nil
    rw [unwrappedOr_nil] at hread
    exact AgreeOn.of_silent hread (.refl _)
  | _ => exact .refl _

/-- Changes of different keys are made one after the other as if each were made in the map as it was,
and what they give is put in. The induction is on the changes to come: under their keys the map is still
as it was. -/
theorem agreeOn_evolveLoop {rest acc : List (String × Value C)} (hsorted : Entries.Sorted changes)
    (hrest : ∀ change ∈ rest, change ∈ changes) (hdistinct : Entries.Sorted rest)
    (hkept : ∀ change ∈ rest, Entries.find? change.1 acc = Entries.find? change.1 entries)
    (hleaves : ∀ change ∈ changes, (renewed entries change).Leaves watch P (·.isPlaceholder = false)) :
    AgreeOn watch P
      ((rest.map fun change => Value.text change.1).foldlM (fun acc key => do
        let change ← getOrElse key .nil (.map changes)
        Generic.assoc key (← changed key change acc) acc) (.map acc))
      (do return .map (Entries.putAll (← renewals rest entries) acc)) := by
  induction rest generalizing acc with
  | nil => exact .refl _
  | cons change rest ih =>
    obtain ⟨hchange, hrest⟩ := List.forall_mem_cons.mp hrest
    obtain ⟨hbefore, hdistinct⟩ := List.pairwise_cons.mp hdistinct
    obtain ⟨hfirst, hkept⟩ := List.forall_mem_cons.mp hkept
    have hread := fun w (hw : P w) => shows_getOrElse_text
      (hwatch .get (by decide)) (hstandard w hw) change.1 .nil changes
    rw [hsorted.find?_eq_of_mem hchange, Option.getD_some, unwrappedOr_nil] at hread
    have hput := fun (v : Value C) (hv : v.isPlaceholder = false) w (hw : P w) => shows_put
      watch (hwatch .assoc (by decide)) (hstandard w hw).standardPaths
      (.entry rfl : Takes (.map acc) (.text change.1)) hv
    have hlater : ∀ v, ∀ other ∈ rest, Entries.find? other.1 (Entries.insert change.1 v acc) =
        Entries.find? other.1 entries := by
      intro v other hother
      rw [Entries.find?_insert_of_ne (String.ne_of_lt (hbefore other hother)), hkept other hother]
    rw [List.map_cons, List.foldlM_cons, renewals, List.mapM_cons]
    simp only [LawfulMonad.bind_assoc, LawfulMonad.pure_bind]
    refine AgreeOn.of_silent hread ?_
    refine (agreeOn_changed hwatch hstandard hfirst).bind (hleaves change hchange) fun v hv => ?_
    exact AgreeOn.of_silent (hput v hv) (ih hrest hdistinct (hlater v))

/-- The changes of a map are made as if each were made in the map as it was. -/
theorem agreeOn_evolve (hsorted : Entries.Sorted changes)
    (hleaves : ∀ change ∈ changes, (renewed entries change).Leaves watch P (·.isPlaceholder = false)) :
    AgreeOn watch P (evolve (.map changes) (.map entries)) (changedTogether changes entries) := by
  have hkeys := fun w (hw : P w) => shows_keyList_of_provides (v := .map changes)
    watch (hwatch .keys (by decide)) rfl (hstandard w hw .map .map .keys rfl)
  rw [keys, List.map_map] at hkeys
  exact AgreeOn.of_silent hkeys (agreeOn_evolveLoop hwatch hstandard hsorted (fun _ h => h) hsorted
    (fun _ _ => rfl) hleaves)

end Loop

section Results

variable [Embedding C S]

/-- Called on one value that is no hole, a function never gives a hole. -/
def GivesNoHole (S : Type) [Embedding C S] (f : Func C) : Prop :=
  ∀ (v r : Value C) (w w' : World C S), v.isPlaceholder = false → (call f [v]).Yields w (.ok r) w' →
    r.isPlaceholder = false

/-- A function that gives its argument back never does. -/
theorem givesNoHole_of_code {f : Func C} (hcode : f.code = .pipe []) : GivesNoHole S f := by
  intro v r w w' hv h
  have hbody : (f.body [v] : Action C S (Value C)).Yields w (.ok v) w := by
    simp only [Callable.body, hcode]
    exact yields_pure v w
  obtain ⟨hresult, -⟩ := h.unique hbody.call
  exact Except.ok.inj hresult ▸ hv

variable (hhost : HostKeeps S (Registry.StandardWriting (C := C))) (watch : Func C → Bool)

include hhost

/-- Changes made in a value that is no hole never give a hole. -/
theorem leaves_evolve (changes : Value C) {subject : Value C} (hsubject : subject.isPlaceholder = false) :
    (evolve changes subject : Action C S (Value C)).Leaves watch (fun w => w.registry.StandardWriting)
      (·.isPlaceholder = false) := by
  have hkept : (Terms.registering (C := C) (S := S) Registry.StandardWriting).Tolerates fun _ => True :=
    Terms.tolerates_registering
  refine (hhost.leaves watch (hkept.keyList changes)).bind fun keys _ => ?_
  refine Leaves.foldlM (fun acc _ key _ => ?_) hsubject
  refine (hhost.leaves watch (hkept.getOrElse key .nil changes)).bind fun change _ => ?_
  refine (hhost.leaves watch (hkept.changed key change acc)).bind fun v _ => ?_
  exact fun w hw _ ys w' h => ⟨hhost.lasts (hkept.method .assoc _) hw h.yields,
    isPlaceholder_of_yields_assoc hw h.yields⟩

/-- Nor does one change. -/
theorem leaves_renewed {entries : List (String × Value C)} {change : String × Value C}
    (hstored : ∀ e ∈ entries, e.2.unwrapped.isPlaceholder = false)
    (hplain : change.2.unwrapped.isPlaceholder = false)
    (hfunction : ∀ f, change.2.unwrapped = .func f → GivesNoHole S f) :
    (renewed entries change : Action C S (Value C)).Leaves watch
      (fun w => w.registry.StandardWriting) (·.isPlaceholder = false) := by
  have hread : ((Entries.find? change.1 entries).getD .nil).unwrapped.isPlaceholder = false := by
    cases hfound : Entries.find? change.1 entries with
    | none => rfl
    | some v => exact hstored _ (Entries.mem_of_find?_eq_some hfound)
  unfold renewed
  cases hchange : change.2.unwrapped with
  | map nested =>
    refine leaves_evolve hhost watch _ ?_
    rcases unwrappedOr_eq_or ((Entries.find? change.1 entries).getD .nil) (.map []) with h | h
    · rw [h]
      rfl
    · rw [h]
      exact hread
  | func f =>
    intro w hw calls r w' h
    exact ⟨hhost.lasts (Terms.tolerates_registering.call f _) hw h.yields,
      hfunction f hchange _ _ _ _ hread h.yields⟩
  | _ => exact Leaves.pure (hchange ▸ hplain)

/-- A value that a change has given in a map, while the standard registrations held. -/
def GivenBy (S : Type) [Embedding C S] (entries : List (String × Value C)) (change : String × Value C)
    (v : Value C) : Prop :=
  ∃ w w' : World C S, w.registry.StandardWriting ∧ (renewed entries change).Yields w (.ok v) w'

omit hhost in
/-- What the changes give stands under their keys. -/
theorem leaves_renewals {changes entries : List (String × Value C)}
    (hleaves : ∀ change ∈ changes, (renewed entries change : Action C S (Value C)).Leaves watch
      (fun w => w.registry.StandardWriting) (·.isPlaceholder = false)) :
    (renewals changes entries : Action C S _).Leaves watch (fun w => w.registry.StandardWriting)
      (List.Forall₂ (fun change e => e.1 = change.1 ∧ GivenBy S entries change e.2) changes) :=
  Leaves.mapM fun change hchange => (hleaves change hchange).yielded.bind fun _ hv =>
    Leaves.pure ⟨rfl, hv⟩

end Results

variable [Embedding C S] {w : World C S}

/-- Where the standard registrations last, a map of changes without a hole is made in a map without one
as follows, for everyone who does not watch the implementations of maps. The changes are made in the
order of their keys, once each and in the map as it was, up to the first error; what they give is then
put in together. So when there is no error the result is a map with the keys of both. It holds what it
held under the keys that are not changed, and under the others what the changes have given. -/
theorem evolve_changes_the_original (hhost : HostKeeps S (Registry.StandardWriting (C := C)))
    (hw : w.registry.StandardWriting) {changes entries : List (String × Value C)}
    (hchanges : Entries.Sorted changes) (hentries : Entries.Sorted entries)
    (hplain : ∀ change ∈ changes, change.2.unwrapped.isPlaceholder = false)
    (hstored : ∀ e ∈ entries, e.2.unwrapped.isPlaceholder = false)
    (hfunctions : ∀ change ∈ changes, ∀ f, change.2.unwrapped = .func f → GivesNoHole S f) :
    (∀ watch : Func C → Bool, (∀ m ∈ [Method.get, .keys, .assoc, .empty], ∀ g : Func C,
        g.implements m = true → watch g = false) →
      ∀ calls r w', (evolve (.map changes) (.map entries)).Shows watch w calls r w' ↔
        (changedTogether changes entries).Shows watch w calls r w') ∧
    ∀ (result : Value C) (w' : World C S),
      (evolve (.map changes) (.map entries)).Yields w (.ok result) w' →
        ∃ written, result = .map written ∧ Entries.Sorted written ∧
          (∀ key, key ∈ written.map (·.1) ↔ key ∈ entries.map (·.1) ∨ key ∈ changes.map (·.1)) ∧
          (∀ key, key ∉ changes.map (·.1) →
            Entries.find? key written = Entries.find? key entries) ∧
          ∀ change ∈ changes, ∃ v, Entries.find? change.1 written = some v ∧
            GivenBy S entries change v := by
  have hleaves := fun watch change (hchange : change ∈ changes) => leaves_renewed hhost watch hstored
    (hplain change hchange) (hfunctions change hchange)
  have hagree : ∀ watch : Func C → Bool, (∀ m ∈ [Method.get, .keys, .assoc, .empty], ∀ g : Func C,
      g.implements m = true → watch g = false) →
        AgreeOn watch (fun w : World C S => w.registry.StandardWriting)
          (evolve (.map changes) (.map entries)) (changedTogether changes entries) :=
    fun watch hwatch => agreeOn_evolve hwatch (fun _ hw => hw.standard) hchanges (hleaves watch)
  refine ⟨fun watch hwatch => hagree watch hwatch w hw, fun result w' h => ?_⟩
  obtain ⟨calls, hshown⟩ := (yields_iff_shows fun _ => false).mp h
  have hshown := (hagree _ (fun _ _ _ _ => rfl) w hw _ _ _).mp hshown
  have hresult : (changedTogether changes entries : Action C S (Value C)).Leaves (fun _ => false)
      (fun w => w.registry.StandardWriting) fun result =>
        ∃ given, result = .map (Entries.putAll given entries) ∧ List.Forall₂ (fun change e =>
          e.1 = change.1 ∧ GivenBy S entries change e.2) changes given :=
    (leaves_renewals _ (hleaves _)).bind fun given hgiven => Leaves.pure ⟨given, rfl, hgiven⟩
  obtain ⟨given, rfl, hgiven⟩ := (hresult w hw _ _ _ hshown).2
  obtain ⟨hkeys, hsorted, hfound⟩ := hchanges.find?_of_forall₂ (GivenBy S entries) hgiven
  refine ⟨_, rfl, hentries.putAll given, fun key => ?_, fun key hkey => ?_, fun change hchange => ?_⟩
  · rw [← Entries.isSome_find?, Entries.find?_putAll hsorted, Option.isSome_or, Bool.or_eq_true,
      Entries.isSome_find?, Entries.isSome_find?, hkeys, or_comm]
  · have hnone : Entries.find? key given = none := by
      rw [← Option.not_isSome_iff_eq_none, Entries.isSome_find?, hkeys]
      exact hkey
    rw [Entries.find?_putAll hsorted, hnone, Option.none_or]
  · obtain ⟨v, hv, hyields⟩ := hfound change hchange
    refine ⟨v, ?_, hyields⟩
    rw [Entries.find?_putAll hsorted, hv, Option.some_or]

/-- A nested change, two functions and a plain value, at the start, where the map stores a `Maybe`: the
functions are called once each, on nil and on what is inside. -/
theorem evolve_changes_the_original_nested :
    let w : World Empty Unit := World.initial ()
    let pass : Func Empty := ⟨0, "pass", 1, .pipe []⟩
    let methods : List Method := [.get, .keys, .assoc, .empty]
    let watch : Func Empty → Bool := fun g => !methods.any g.implements
    (evolve (.map [("a", .map [("b", .func pass)]), ("c", .func pass), ("d", .bool true)])
      (.map [("a", Maybe.some (.map [])), ("c", Maybe.some (.bool false))])).Shows watch w
        [⟨pass, [.nil], .ok .nil⟩, ⟨pass, [.bool false], .ok (.bool false)⟩]
        (.ok (.map [("a", .map [("b", .nil)]), ("c", .bool false), ("d", .bool true)])) w := by
  intro w pass methods watch
  have hhost : HostKeeps Unit (Registry.StandardWriting (C := Empty)) := fun c => nomatch c
  have hw : w.registry.StandardWriting := Registry.standardWriting_standard firstFreeId
  clear_value w
  have hwatch : ∀ m ∈ methods, ∀ g : Func Empty, g.implements m = true → watch g = false :=
    fun m hm g hg => by simp only [watch, List.any_eq_true.mpr ⟨m, hm, hg⟩, Bool.not_true]
  have hpass : GivesNoHole Unit pass := givesNoHole_of_code rfl
  let nested : List (String × Value Empty) := [("b", .func pass)]
  let later : List (String × Value Empty) := [("c", .func pass), ("d", .bool true)]
  let entries : List (String × Value Empty) :=
    [("a", Maybe.some (.map [])), ("c", Maybe.some (.bool false))]
  have hinside : (renewals nested []).Shows watch w [⟨pass, [.nil], .ok .nil⟩] (.ok [("b", .nil)]) w :=
    ⟨2, rfl⟩
  have hlater : (renewals later entries).Shows watch w [⟨pass, [.bool false], .ok (.bool false)⟩]
      (.ok [("c", .bool false), ("d", .bool true)]) w := ⟨2, rfl⟩
  have hfirst : (renewed entries ("a", .map nested)).Shows watch w [⟨pass, [.nil], .ok .nil⟩]
      (.ok (.map [("b", .nil)])) w := by
    obtain ⟨htogether, -⟩ := evolve_changes_the_original hhost hw
      (by decide : Entries.Sorted nested) (List.Pairwise.nil : Entries.Sorted [])
      (by decide) (by decide) (by simp [nested, unwrapped, hpass])
    exact (htogether watch hwatch _ _ _).mpr (shows_changedTogether hinside)
  obtain ⟨htogether, -⟩ := evolve_changes_the_original hhost hw
    (by decide : Entries.Sorted (("a", .map nested) :: later)) (by decide : Entries.Sorted entries)
    (by decide) (by decide) (by simp [later, unwrapped, hpass])
  have hgiven : (renewals (("a", .map nested) :: later) entries).Shows watch w
      [⟨pass, [.nil], .ok .nil⟩, ⟨pass, [.bool false], .ok (.bool false)⟩]
      (.ok [("a", .map [("b", .nil)]), ("c", .bool false), ("d", .bool true)]) w :=
    shows_renewals_cons hfirst hlater
  exact (htogether watch hwatch _ _ _).mpr (shows_changedTogether hgiven)

/-- A value as a change nested along a path. -/
def changeAlong : List String → Value C → Value C
  | [], value => value
  | key :: path, value => .map [(key, changeAlong path value)]

/-- A value that as a change takes the place of what was there: no map, function, `Maybe` or hole. -/
def Replaces (value : Value C) : Prop :=
  value.typeKey ∉ [.map, .function, .placeholder, (UnionType.maybe (C := C)).key]

omit [Embedding C S] in
/-- It is no hole. -/
theorem Replaces.isPlaceholder_eq {value : Value C} (h : Replaces value) :
    value.isPlaceholder = false := by
  refine isPlaceholder_of_typeKey_ne fun hkey => h ?_
  rw [hkey]
  simp

omit [Embedding C S] in
/-- It is read as it is. -/
theorem Replaces.unwrapped_eq {value : Value C} (h : Replaces value) : value.unwrapped = value := by
  refine unwrapped_eq_self (Bool.eq_false_iff.mpr fun hmaybe => h ?_)
  rw [Maybe.typeKey_of_contains hmaybe]
  simp

/-- A change to it gives it. -/
theorem Replaces.yields_renewed {value : Value C} (h : Replaces value)
    (entries : List (String × Value C)) (key : String) :
    (renewed entries (key, value)).Yields w (.ok value) w := by
  rw [renewed, h.unwrapped_eq]
  cases value with
  | map _ | func _ => exact absurd (by simp [typeKey]) h
  | _ => exact yields_pure _ w

/-- A single change of a map puts in what it gives. -/
theorem yields_evolve_single (hw : w.registry.Standard) {entries : List (String × Value C)}
    {change : String × Value C} {v : Value C} (h : (renewed entries change).Yields w (.ok v) w)
    (hv : v.isPlaceholder = false) :
    (evolve (.map [change]) (.map entries)).Yields w
      (.ok (.map (Entries.insert change.1 v entries))) w := by
  have hleaves : ∀ c ∈ [change], (renewed entries c).Leaves (fun _ => false) (· = w)
      (·.isPlaceholder = false) :=
    List.forall_mem_singleton.mpr (Leaves.of_yields h hv)
  obtain ⟨calls, hshown⟩ := (yields_iff_shows fun _ => false).mp h
  have hgiven : (renewals [change] entries).Shows (fun _ => false) w (calls ++ [])
      (.ok [(change.1, v)]) w := shows_renewals_cons hshown (shows_pure [] w)
  exact ((agreeOn_evolve (fun _ _ _ _ => rfl) (fun _ h => h ▸ hw) (List.pairwise_singleton _ _) hleaves
    w rfl _ _ _).mpr (shows_changedTogether hgiven)).yields

/-- A value nested along a path as a change comes to stand where writing it along the path puts it. -/
theorem yields_evolve_changeAlong (hw : w.registry.Standard) {value : Value C}
    (hvalue : Replaces value) {path : List String} {entries : List (String × Value C)}
    (hpath : ThroughMaps (path.map .text) (.map entries)) :
    (evolve (changeAlong path value) (.map entries)).Yields w
      (.ok (putIn (path.map .text) value (.map entries))) w := by
  induction path generalizing entries with
  | nil => cases hpath
  | cons key path ih =>
    cases path with
    | nil => exact yields_evolve_single hw (hvalue.yields_renewed entries key) hvalue.isPlaceholder_eq
    | cons next path =>
      cases hpath with
      | step _ _ child_of rest =>
        obtain ⟨inner, rfl⟩ := rest.exists_map
        have hrenewed : (renewed entries (key, changeAlong (next :: path) value)).Yields w
            (.ok (putIn ((next :: path).map .text) value (.map inner))) w := by
          have hstored : ((Entries.find? key entries).getD .nil).unwrappedOr (.map []) = .map inner :=
            child_of.unwrappedOr_eq
          change (evolve (changeAlong (next :: path) value)
            (((Entries.find? key entries).getD .nil).unwrappedOr (.map []))).Yields w _ w
          rw [hstored]
          exact ih rest
        rw [List.map_cons, putIn, child_of.descend_eq]
        exact yields_evolve_single hw hrenewed
          (isPlaceholder_of_isNode (rest.writable.isNode_putIn value))

/-- Along a path of texts that leads through maps, putting in a value that is no map, function, `Maybe` or
hole by a nested change and writing it by its path both succeed, and give the same map. -/
theorem evolve_eq_assocIn (hw : w.registry.Standard) {path : List String}
    {entries : List (String × Value C)} (hpath : ThroughMaps (path.map .text) (.map entries))
    {value : Value C} (hvalue : Replaces value) :
    ∃ written, (evolve (changeAlong path value) (.map entries)).Yields w (.ok (.map written)) w ∧
      (assocIn (path.map .text) value (.map entries)).Yields w (.ok (.map written)) w := by
  have hchanged := yields_evolve_changeAlong hw hvalue hpath
  have hassoc := hpath.writable.yields_assocIn hw.standardPaths hvalue.isPlaceholder_eq
  obtain ⟨key, rest, hcons⟩ := hpath.writable.exists_cons
  rw [hcons] at hchanged hassoc ⊢
  exact ⟨_, hchanged, hassoc⟩

/-- Nil put in through a present `Maybe` and a level that is created, at the start. -/
theorem evolve_eq_assocIn_nil :
    let w : World Empty Unit := World.initial ()
    let entries : List (String × Value Empty) := [("a", Maybe.some (.map [("b", Maybe.none)]))]
    ∃ written, (evolve (changeAlong ["a", "b", "c"] .nil) (.map entries)).Yields w
        (.ok (.map written)) w ∧
      (assocIn [.text "a", .text "b", .text "c"] .nil (.map entries)).Yields w
        (.ok (.map written)) w := by
  intro w entries
  have hw : w.registry.Standard := Registry.standard_standard firstFreeId
  have hpath : ThroughMaps (["a", "b", "c"].map Value.text) (.map entries) :=
    .step rfl (by decide) (.present rfl rfl) (.step rfl (by decide) (.absent rfl (.inr rfl))
      (.last rfl List.Pairwise.nil))
  have hvalue : Replaces (.nil : Value Empty) := by
    unfold Replaces
    decide
  exact evolve_eq_assocIn hw hpath hvalue

end Collection

end DynamicDispatch
