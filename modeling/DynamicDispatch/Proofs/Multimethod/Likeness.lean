import DynamicDispatch.Proofs.Collection.Likeness
import DynamicDispatch.Proofs.Multimethod.Selection

/-!
# Calls with keys that compare equal

With look-up as it was installed, every comparison of a key with a matcher ends with a verdict and
changes nothing. The verdict is the same for two keys that compare equal, since likeness is symmetric
and transitive. So two calls with such keys come to the same definition, to the same last resort, or
both to nothing.
-/

namespace DynamicDispatch.Multimethod

open DynamicDispatch.Action Collection

variable {C S : Type} {types : Nat → Option (RecordType (Value C))} {w : World C S}

/-- Whether a matcher fits a key: a union key is fitted by the same case of the same type, any other
key by what is alike. -/
def Fits (key matcher : Value C) : Prop :=
  match key with
  | .union type index _ =>
    ∃ type' fields', matcher = .union type' index fields' ∧ type'.id = type.id
  | key => Alike key matcher

/-- A value that is like a union instance is an instance of the same case of the same type. -/
theorem eq_union_of_alike {type : UnionType (Value C)} {index : Nat} {fields : List (Value C)}
    {v : Value C} (h : Alike (.union type index fields) v) :
    ∃ type' fields', v = .union type' index fields' ∧ type'.id = type.id := by
  have hplain : comparedByKeys (.union type index fields) v = false := by
    simp [comparedByKeys, Value.hasKeys]
  have heq := (alike_iff_equal hplain).mp h
  cases v with
  | union type' index' fields' =>
    simp only [Value.equal, Bool.and_eq_true, beq_iff_eq] at heq
    obtain ⟨⟨hid, rfl⟩, -⟩ := heq
    exact ⟨type', fields', rfl, hid.symm⟩
  | _ => cases heq

/-- Any other key is fitted by what is alike. -/
theorem fits_iff_alike {key : Value C} (h : key.kind ≠ .union) (matcher : Value C) :
    Fits key matcher ↔ Alike key matcher := by
  cases key with
  | union _ _ _ => exact absurd rfl h
  | _ => rfl

/-- Values of one type are of one kind. -/
theorem kind_eq_of_typeKey_eq {a b : Value C} (h : a.typeKey = b.typeKey) : a.kind = b.kind := by
  cases a <;> cases b <;> first | rfl | cases h

/-- What fits a key fits every key that is like it. -/
theorem Fits.of_alike {key key' matcher : Value C} (h : Fits key matcher) (halike : Alike key key') :
    Fits key' matcher := by
  by_cases hkind : key.kind = .union
  · cases key with
    | union type index fields =>
      obtain ⟨type', fields', rfl, hid⟩ := eq_union_of_alike halike
      obtain ⟨type'', fields'', rfl, hid'⟩ := h
      exact ⟨type'', fields'', rfl, hid'.trans hid.symm⟩
    | _ => cases hkind
  · have hkind' : key'.kind ≠ .union := kind_eq_of_typeKey_eq halike.typeKey_eq ▸ hkind
    rw [fits_iff_alike hkind] at h
    rw [fits_iff_alike hkind']
    exact halike.symm.trans h

variable [Embedding C S]

open Classical in
/-- Whether a matcher fits a key always comes out, and finding out changes nothing. -/
theorem yields_fits (hw : w.registry.StandardLookup types) {key matcher : Value C}
    (hkey : key.WellFormed types) (hmatcher : matcher.WellFormed types) :
    (fits key matcher).Yields w (.ok (decide (Fits key matcher))) w := by
  by_cases hkind : key.kind = .union
  · cases key with
    | union type index fields =>
      rw [fits_union (b := decide (Fits (.union type index fields) matcher)) decide_eq_true_iff]
      exact yields_done _ w
    | _ => cases hkind
  · simp only [fits_iff_alike hkind]
    rw [fits_of_kind_ne hkind]
    exact Yields.request (yields_deepEqual_alike hw hkey hmatcher)

open Classical in
/-- The search comes to the first definition whose matcher fits. -/
theorem yields_select (hw : w.registry.StandardLookup types) {key : Value C}
    (hkey : key.WellFormed types) {pairs : List (Value C × Func C)}
    (hpairs : ∀ d ∈ pairs, d.1.WellFormed types) :
    (select key pairs).Yields w
      (.ok ((pairs.find? fun d => decide (Fits key d.1)).map (·.2))) w := by
  induction pairs with
  | nil => exact yields_pure none w
  | cons d pairs ih =>
    obtain ⟨hd, hrest⟩ := List.forall_mem_cons.mp hpairs
    obtain ⟨matcher, handler⟩ := d
    refine (yields_fits hw hkey hd).bind ?_
    rw [List.find?_cons]
    cases decide (Fits key matcher) with
    | true => exact yields_pure (some handler) w
    | false => exact ih hrest

/-- A call of a multimethod has come as far as its key, in a world with look-up as it was installed; its
key and matchers are well-formed. -/
structure Dispatched (m : Multimethod C) (ms : MethodList C)
    (types : Nat → Option (RecordType (Value C))) (args : List (Value C)) (u : World C S)
    (key : Value C) (w : World C S) : Prop where
  yields_key : (DynamicDispatch.call m.dispatch args).Yields u (.ok key) w
  methods_eq : w.multimethods.get? m.id = some ms
  lookup : w.registry.StandardLookup types
  key_wellFormed : key.WellFormed types
  matchers_wellFormed : ∀ d ∈ ms.pairs, d.1.WellFormed types

/-- What a call runs when it has come to the definition at a position, or to none: its handler, the
last resort, or nothing. -/
def choice (ms : MethodList C) (key : Value C) (args : List (Value C)) :
    Option (Fin ms.pairs.length) → Option (Func C × List (Value C))
  | some i => some (ms.pairs[i].2, handlerArgs key args)
  | none => ms.wildcard.map (·, args)

open Classical in
/-- A call goes on as what it runs for the first definition whose matcher fits. -/
theorem Dispatched.yields_call_iff {m : Multimethod C} {ms : MethodList C} {args : List (Value C)}
    {u w : World C S} {key : Value C} (h : m.Dispatched ms types args u key w)
    (r : Except Error (Value C)) (w' : World C S) :
    (m.call args).Yields u r w' ↔
      (goOn args (choice ms key args (ms.pairs.findFinIdx? fun d => decide (Fits key d.1)))).Yields
        w r w' := by
  have hmethods : (m.methods : Action C S (MethodList C)).Yields w (.ok ms) w := by
    refine ⟨0, ?_⟩
    change some (Except.ok ((w.multimethods.get? m.id).getD {}), w) = _
    rw [h.methods_eq]
    rfl
  have hselect := yields_select h.lookup h.key_wellFormed h.matchers_wellFormed
  unfold Multimethod.call
  rw [h.yields_key.bind_iff, hmethods.bind_iff, hselect.bind_iff,
    List.find?_eq_map_findFinIdx?_getElem]
  cases ms.pairs.findFinIdx? fun d => decide (Fits key d.1) with
  | some i => rfl
  | none =>
    rw [choice]
    cases ms.wildcard <;> rfl

/-- With look-up as it was installed, no comparison of a well-formed key with a well-formed matcher
fails. When two calls have come to keys that compare equal, each matcher gives both the same verdict, and
both calls run the definition at the same position, or both the last resort, or both find nothing. -/
theorem calls_choose_alike {m : Multimethod C} {ms : MethodList C} {args₁ args₂ : List (Value C)}
    {types₁ types₂ : Nat → Option (RecordType (Value C))} {u₁ u₂ w₁ w₂ : World C S}
    {key₁ key₂ : Value C} (h₁ : m.Dispatched ms types₁ args₁ u₁ key₁ w₁)
    (h₂ : m.Dispatched ms types₂ args₂ u₂ key₂ w₂) (hw : w.registry.StandardLookup types)
    (hkey₁ : key₁.WellFormed types) (hkey₂ : key₂.WellFormed types)
    (hequal : (deepEqual key₁ key₂).Yields w (.ok true) w) :
    (∀ key matcher : Value C, key.WellFormed types → matcher.WellFormed types →
      ∃ b, (fits key matcher).Yields w (.ok b) w) ∧
    (∀ d ∈ ms.pairs, ∃ b, (fits key₁ d.1).Yields w₁ (.ok b) w₁ ∧
      (fits key₂ d.1).Yields w₂ (.ok b) w₂) ∧
    ∃ chosen : Option (Fin ms.pairs.length),
      (∀ r w', (m.call args₁).Yields u₁ r w' ↔
        (goOn args₁ (choice ms key₁ args₁ chosen)).Yields w₁ r w') ∧
      (∀ r w', (m.call args₂).Yields u₂ r w' ↔
        (goOn args₂ (choice ms key₂ args₂ chosen)).Yields w₂ r w') := by
  classical
  have halike : Alike key₁ key₂ := by
    have hverdict := (hequal.unique (yields_deepEqual_alike hw hkey₁ hkey₂)).1
    exact of_decide_eq_true (Except.ok.inj hverdict).symm
  have hsame : ∀ matcher, decide (Fits key₁ matcher) = decide (Fits key₂ matcher) := fun matcher =>
    decide_eq_decide.mpr ⟨fun h => h.of_alike halike, fun h => h.of_alike halike.symm⟩
  refine ⟨fun key matcher hkey hmatcher => ⟨_, yields_fits hw hkey hmatcher⟩, fun d hd => ?_, ?_⟩
  · refine ⟨_, yields_fits h₁.lookup h₁.key_wellFormed (h₁.matchers_wellFormed d hd), ?_⟩
    rw [hsame]
    exact yields_fits h₂.lookup h₂.key_wellFormed (h₂.matchers_wellFormed d hd)
  · refine ⟨ms.pairs.findFinIdx? fun d => decide (Fits key₁ d.1), h₁.yields_call_iff, ?_⟩
    simp only [hsame]
    exact h₂.yields_call_iff

/-- A multimethod defined for a list of one text, called with it and with the list of that text as a
present `Maybe`: the two are not equal, but compare equal, and both calls run the same definition. -/
theorem calls_choose_alike_wrapped :
    let bare : Value Empty := .list [.text "a"]
    let wrapped : Value Empty := .list [Maybe.some (.text "a")]
    let m : Multimethod Empty := ⟨0, echo 0⟩
    let ms : MethodList Empty := ⟨[(bare, echo 1)], none⟩
    let w : World Empty Unit := { World.initial () with multimethods := Table.empty.insert 0 ms }
    Value.equal bare wrapped = false ∧ ∃ chosen : Option (Fin ms.pairs.length),
      (∀ r w', (m.call [bare]).Yields w r w' ↔
        (goOn [bare] (choice ms bare [bare] chosen)).Yields w r w') ∧
      (∀ r w', (m.call [wrapped]).Yields w r w' ↔
        (goOn [wrapped] (choice ms wrapped [wrapped] chosen)).Yields w r w') := by
  intro bare wrapped m ms w
  have hw : w.registry.StandardLookup Registry.initialTypes :=
    Registry.standardLookup_standard firstFreeId
  have htext : (.text "a" : Value Empty).Built Registry.initialTypes :=
    .text (by unfold Value.Addressable; decide +kernel)
  have hbare : bare.Built Registry.initialTypes :=
    .list (by unfold Value.Addressable; decide +kernel) (List.forall_mem_singleton.mpr htext)
  have hwrapped : wrapped.Built Registry.initialTypes :=
    .list (by unfold Value.Addressable; decide +kernel)
      (List.forall_mem_singleton.mpr (.union (fun _ => rfl) (List.forall_mem_singleton.mpr htext)))
  have hdispatched : ∀ v : Value Empty, v.WellFormed Registry.initialTypes →
      m.Dispatched ms Registry.initialTypes [v] w v w := fun v hv =>
    ⟨Yields.call ⟨0, rfl⟩, rfl, hw, hv, List.forall_mem_singleton.mpr hbare.wellFormed⟩
  have hequal : (deepEqual bare wrapped).Yields w (.ok true) w := yields_deepEqual hw hbare hwrapped
  exact ⟨rfl, (calls_choose_alike (hdispatched bare hbare.wellFormed)
    (hdispatched wrapped hwrapped.wellFormed) hw hbare.wellFormed hwrapped.wellFormed hequal).2.2⟩

end DynamicDispatch.Multimethod
