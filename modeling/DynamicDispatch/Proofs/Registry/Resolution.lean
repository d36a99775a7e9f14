import DynamicDispatch.Proofs.Dispatch
import DynamicDispatch.Proofs.Registry.History
import Mathlib.Data.Option.Basic

/-!
# What a method resolves to

Each call of a history adds to the registry what the history says of it, so at every moment the
registry has, under each type and name, a function from the origin that the history gives. What a call
does not register for stays as it was. For protocols this means that a value has all methods of its
own exactly when each of them has an origin under the value's type, and then every call of one of them
calls a function from there.
-/

namespace DynamicDispatch

variable {C S : Type}

/-- Where something comes from an origin, there is a function from it. -/
theorem Origin.exists_of_rel {o : Origin C} {f? : Option (Func C)}
    (h : Option.Rel Origin.Gives (some o) f?) : ∃ f, f? = some f ∧ o.Gives f := by
  cases h with
  | some hgives => exact ⟨_, rfl, hgives⟩

/-- Where nothing has an origin, there is nothing. -/
theorem Origin.eq_none_of_rel {f? : Option (Func C)} (h : Option.Rel Origin.Gives none f?) :
    f? = none := by
  cases h
  rfl

namespace Registry

/-- Under the name of a method its provider is found. -/
theorem provided?_name (part : List (TypeKey × Family)) (key : TypeKey) (m : Method) :
    (provided? part key m.name : Option (Origin C)) =
      (provider? part key m).map fun family => .provided family m := by
  simp only [provided?, Method.named?_name, Option.bind_eq_bind, Option.bind_some]
  cases provider? part key m <;> rfl

/-- Under any other name nothing is provided. -/
theorem provided?_of_named?_eq_none {name : String} (h : Method.named? name = none)
    (part : List (TypeKey × Family)) (key : TypeKey) :
    (provided? part key name : Option (Origin C)) = none := by
  unfold provided?
  rw [h]
  rfl

/-- What is installed last is provided before what was installed earlier. -/
theorem provided?_concat (part : List (TypeKey × Family)) (e : TypeKey × Family) (key : TypeKey)
    (name : String) : (provided? (part ++ [e]) key name : Option (Origin C)) =
      (provided? [e] key name).or (provided? part key name) := by
  cases hm : Method.named? name with
  | none => simp only [provided?_of_named?_eq_none hm, Option.or_none]
  | some m =>
    obtain rfl := Method.named?_eq_some hm
    have hone := provider?_concat [] e key m
    rw [List.nil_append] at hone
    simp only [provided?_name, provider?_concat part e, hone]
    by_cases h : e.1 = key ∧ m ∈ e.2.methods
    · rw [if_pos h, if_pos h]
      rfl
    · rw [if_neg h, if_neg h]
      rfl

/-- A family is not provided for another type than its own. -/
theorem provided?_singleton_of_ne {e : TypeKey × Family} {key : TypeKey} (h : e.1 ≠ key)
    (name : String) : (provided? [e] key name : Option (Origin C)) = none := by
  cases hm : Method.named? name with
  | none => exact provided?_of_named?_eq_none hm [e] key
  | some m =>
    obtain rfl := Method.named?_eq_some hm
    simp [provided?_name, provider?, h]

/-- Installing families leaves alone what is looked up under a name that no method has. -/
theorem lookup_installPart_of_named?_eq_none {name : String} (h : Method.named? name = none)
    (part : List (TypeKey × Family)) (key : TypeKey) (r : Registry C) (n : Nat) :
    ((r.installPart part).run n).1.lookup key name = r.lookup key name := by
  have hname : ∀ m : Method, m.name ≠ name := by
    rintro m rfl
    rw [Method.named?_name] at h
    cases h
  induction part using List.reverseRecOn with
  | nil => rfl
  | append_singleton part e ih =>
    rw [installPart, List.foldlM_append]
    change ((install e.1 e.2 ((r.installPart part).run n).1).run
      ((r.installPart part).run n).2).1.lookup key name = _
    obtain ⟨next, hrun⟩ := run_install e.1 e.2 ((r.installPart part).run n).1
      ((r.installPart part).run n).2
    rw [hrun, ← ih]
    refine lookup_extend_of_ne (fun _ f hf hfname => ?_) _ _
    have hmem := List.mem_map_of_mem (f := (·.name)) hf
    rw [map_name_functionsFor] at hmem
    obtain ⟨m, -, hm⟩ := List.mem_map.mp hmem
    exact hname m (hm.trans hfname)

/-- After families have been installed, what they provide is looked up; the rest is as it was. -/
theorem lookup_installPart_named (part : List (TypeKey × Family)) (key : TypeKey) (name : String)
    (r : Registry C) (n : Nat) :
    match (provided? part key name : Option (Origin C)) with
    | some o => ∃ f, ((r.installPart part).run n).1.lookup key name = some f ∧ o.Gives f
    | none => ((r.installPart part).run n).1.lookup key name = r.lookup key name := by
  cases hm : Method.named? name with
  | none =>
    rw [provided?_of_named?_eq_none hm]
    exact lookup_installPart_of_named?_eq_none hm part key r n
  | some m =>
    obtain rfl := Method.named?_eq_some hm
    rw [provided?_name]
    cases hfamily : provider? part key m with
    | none => exact lookup_installPart hfamily r n
    | some family =>
      obtain ⟨id, next, hlookup⟩ := provides_installPart hfamily r n
      exact ⟨_, hlookup, id, next, rfl⟩

end Registry

namespace Registration

/-- A declaration lists nothing. -/
theorem listings_eq_nil {call : Registration C} {family : Family} (h : call.family? = some family) :
    call.listings = [] := by
  cases call <;> first | rfl | cases h

/-- A call lists functions for the types that it extends. -/
theorem key_mem_extended {call : Registration C} {l : Listing C} (h : l ∈ call.listings) :
    l.key ∈ call.extended := by
  cases call with
  | extendType key groups =>
    obtain ⟨group, -, hl⟩ := List.mem_flatMap.mp h
    obtain ⟨f, -, rfl⟩ := List.mem_map.mp hl
    exact List.mem_singleton_self key
  | extendProtocol p groups =>
    obtain ⟨group, hgroup, hl⟩ := List.mem_flatMap.mp h
    obtain ⟨f, -, rfl⟩ := List.mem_map.mp hl
    exact List.mem_map_of_mem hgroup
  | _ => cases h

/-- A call leaves alone what is looked up for the types that it registers nothing for. -/
theorem Effect.lookup_eq {call : Registration C} {w w' : World C S}
    {result : Except Error (Option TypeKey)} (h : call.Effect w result w') {key : TypeKey}
    (hkey : key ∉ Completed.keys ⟨call, result⟩) (name : String) :
    w'.registry.lookup key name = w.registry.lookup key name := by
  cases h with
  | @declares family declared _ n family_eq _ _ _ registry_eq _ =>
    have hne : declared ≠ key := by
      rintro rfl
      simp [Completed.keys, Completed.declared, family_eq] at hkey
    have hlookup :=
      Registry.lookup_installPart_named [(declared, family)] key name w.registry n
    rw [Registry.provided?_singleton_of_ne hne] at hlookup
    rw [registry_eq]
    exact hlookup
  | lists family_eq _ lists _ =>
    have hlast : Listing.last? call.listings key name = none := by
      refine Listing.last?_eq_none (fun l hl hlkey => hkey ?_) name
      exact List.mem_append_right _ (List.mem_map.mpr ⟨l, hl, hlkey⟩)
    have hlookup := lists key name
    rw [hlast] at hlookup
    exact hlookup
  | refused _ _ => rfl

end Registration

namespace History

theorem listings_concat (past : List (Completed C)) (c : Completed C) :
    listings (past ++ [c]) = listings past ++ c.listings := by
  simp [listings]

theorem declared_concat (past : List (Completed C)) (c : Completed C) :
    declared (past ++ [c]) = declared past ++ c.declared := by
  simp [declared]

theorem families_concat (past : List (Completed C)) (c : Completed C) :
    families (past ++ [c]) = families past ++ c.declared := by
  simp [families, declared]

/-- What a history says of the world that it has led to. -/
structure Tells (past : List (Completed C)) (w : World C S) : Prop where
  /-- The registry has, under each type and name, a function from the origin in the history. -/
  lookup : ∀ key name,
    Option.Rel Origin.Gives (origin? past key name) (w.registry.lookup key name)
  listed_below : ∀ l ∈ listings past, l.key.Below w.nextId
  family_below : ∀ e ∈ families past, e.1.Below w.nextId
  /-- Every declared type has a key of its own. -/
  nodup : ((declared past).map (·.1)).Nodup
  disjoint : ∀ e ∈ declared past, e.1 ∉ (Registry.standardParts C).map (·.1)

/-- The standard types come before the first free identity. -/
theorem below_of_mem_standardParts {e : TypeKey × Family} (he : e ∈ Registry.standardParts C) :
    e.1.Below firstFreeId := by
  have hall : ∀ e ∈ Registry.standardParts C, e.1.Below firstFreeId := by
    simp [Registry.standardParts, Registry.parts, Registry.standardTypes, TypeKey.Below,
      RecordType.key, RecordType.sum, RecordType.product, UnionType.key, UnionType.maybe,
      UnionType.result, firstFreeId]
  exact hall e he

/-- The start is as the empty history tells. -/
theorem Tells.start (host : S) : Tells ([] : List (Completed C)) (World.initial host) := by
  have hregistry : (World.initial (C := C) host).registry =
      ((Registry.empty.installPart (Registry.standardParts C)).run firstFreeId).1 := by
    rw [← Registry.standard_eq_installPart]
    rfl
  have hnextId : firstFreeId ≤ (World.initial (C := C) host).nextId := by
    have hgrows := Grows.installPart (C := C) (Registry.standardParts C) .empty firstFreeId
    rw [← Registry.standard_eq_installPart] at hgrows
    exact hgrows
  have hfamilies : families ([] : List (Completed C)) = Registry.standardParts C :=
    List.append_nil _
  refine ⟨fun key name => ?_, nofun, fun e he => ?_, .nil, nofun⟩
  · have hlookup := Registry.lookup_installPart_named (Registry.standardParts C) key name
      (.empty : Registry C) firstFreeId
    rw [hregistry, origin?, hfamilies]
    change Option.Rel _ (Registry.provided? (Registry.standardParts C) key name) _
    cases hprovided : (Registry.provided? (Registry.standardParts C) key name : Option (Origin C)) with
    | none =>
      rw [hprovided] at hlookup
      rw [hlookup]
      exact .none
    | some o =>
      rw [hprovided] at hlookup
      obtain ⟨f, hf, hgives⟩ := hlookup
      rw [hf]
      exact .some hgives
  · rw [hfamilies] at he
    exact (below_of_mem_standardParts he).mono hnextId

/-- A declaration is told by the history with the new type. -/
theorem Tells.declares {past : List (Completed C)} {w w' : World C S} (h : Tells past w)
    {call : Registration C} {family : Family} {key : TypeKey} {n : Nat}
    (family_eq : call.family? = some family) (new : ¬ key.Below w.nextId)
    (below : key.Below w'.nextId)
    (registry_eq : w'.registry = ((w.registry.installPart [(key, family)]).run n).1)
    (le_nextId : w.nextId ≤ w'.nextId) : Tells (past ++ [⟨call, .ok (some key)⟩]) w' := by
  have hdeclared : Completed.declared ⟨call, .ok (some key)⟩ = [(key, family)] := by
    simp [Completed.declared, family_eq]
  have hlistings : Completed.listings ⟨call, .ok (some key)⟩ = [] :=
    Registration.listings_eq_nil family_eq
  have hnew : ∀ e ∈ families past, e.1 ≠ key := by
    rintro e he rfl
    exact new (h.family_below e he)
  refine ⟨fun other name => ?_, ?_, ?_, ?_, ?_⟩
  · have hlookup :=
      Registry.lookup_installPart_named [(key, family)] other name w.registry n
    rw [origin?, listings_concat, hlistings, List.append_nil, families_concat, hdeclared,
      Registry.provided?_concat, registry_eq]
    cases hprovided : (Registry.provided? [(key, family)] other name : Option (Origin C)) with
    | none =>
      rw [hprovided] at hlookup
      rw [hlookup, Option.none_or]
      exact h.lookup other name
    | some o =>
      -- Only the new type is provided for, and nothing can be listed for it yet.
      have hother : key = other := by
        by_contra hne
        rw [Registry.provided?_singleton_of_ne hne] at hprovided
        cases hprovided
      subst hother
      have hlast : Listing.last? (listings past) key name = none := by
        refine Listing.last?_eq_none ?_ name
        rintro l hl rfl
        exact new (h.listed_below l hl)
      rw [hprovided] at hlookup
      obtain ⟨f, hf, hgives⟩ := hlookup
      rw [hlast, hf]
      exact .some hgives
  · rw [listings_concat, hlistings, List.append_nil]
    exact fun l hl => (h.listed_below l hl).mono le_nextId
  · rw [families_concat, hdeclared]
    intro e he
    rcases List.mem_append.mp he with he | he
    · exact (h.family_below e he).mono le_nextId
    · rw [List.mem_singleton.mp he]
      exact below
  · rw [declared_concat, hdeclared, List.map_append, List.map_singleton, List.nodup_append_comm]
    refine List.nodup_cons.mpr ⟨fun hmem => ?_, h.nodup⟩
    obtain ⟨e, he, hkey⟩ := List.mem_map.mp hmem
    exact hnew e (List.mem_append_right _ he) hkey
  · rw [declared_concat, hdeclared]
    intro e he hmem
    rcases List.mem_append.mp he with he | he
    · exact h.disjoint e he hmem
    · rw [List.mem_singleton.mp he] at hmem
      obtain ⟨e', he', hkey⟩ := List.mem_map.mp hmem
      exact hnew e' (List.mem_append_left _ he') hkey

/-- A call that declares nothing is told by the history with its listings. -/
theorem Tells.lists {past : List (Completed C)} {w w' : World C S} (h : Tells past w)
    {c : Completed C} (declared_eq : c.declared = []) (exist : ∀ l ∈ c.listings, l.key.Below w.nextId)
    (lists : w.registry.Lists c.listings w'.registry) (le_nextId : w.nextId ≤ w'.nextId) :
    Tells (past ++ [c]) w' := by
  have hfamilies : families (past ++ [c]) = families past := by
    rw [families_concat, declared_eq, List.append_nil]
  have hdeclared : declared (past ++ [c]) = declared past := by
    rw [declared_concat, declared_eq, List.append_nil]
  refine ⟨fun key name => ?_, ?_, ?_, ?_, ?_⟩
  · have hlookup := lists key name
    rw [origin?, listings_concat, Listing.last?_append, hfamilies]
    cases hlast : Listing.last? c.listings key name with
    | none =>
      rw [hlast] at hlookup
      rw [hlookup]
      exact h.lookup key name
    | some l =>
      rw [hlast] at hlookup
      obtain ⟨f, hf, hgives⟩ := hlookup
      rw [hf]
      exact .some hgives
  · rw [listings_concat]
    intro l hl
    rcases List.mem_append.mp hl with hl | hl
    · exact (h.listed_below l hl).mono le_nextId
    · exact (exist l hl).mono le_nextId
  · rw [hfamilies]
    exact fun e he => (h.family_below e he).mono le_nextId
  · rw [hdeclared]
    exact h.nodup
  · rw [hdeclared]
    exact h.disjoint

/-- What leaves the registry alone and takes back no identity leaves what is told. -/
theorem Tells.later {past : List (Completed C)} {w w' : World C S} (h : Tells past w)
    (registry_eq : w'.registry = w.registry) (le_nextId : w.nextId ≤ w'.nextId) : Tells past w' := by
  refine ⟨fun key name => ?_, fun l hl => ?_, fun e he => ?_, h.nodup, h.disjoint⟩
  · rw [registry_eq]
    exact h.lookup key name
  · exact (h.listed_below l hl).mono le_nextId
  · exact (h.family_below e he).mono le_nextId

/-- A call's effect is told by the history with the call. -/
theorem Tells.effect {past : List (Completed C)} {w w' : World C S} (h : Tells past w)
    {call : Registration C} {result : Except Error (Option TypeKey)}
    (exist : ∀ key ∈ call.extended, key.Below w.nextId) (heffect : call.Effect w result w') :
    Tells (past ++ [⟨call, result⟩]) w' := by
  cases heffect with
  | declares family_eq new below _ registry_eq le_nextId =>
    exact h.declares family_eq new below registry_eq le_nextId
  | lists family_eq _ lists le_nextId =>
    refine h.lists ?_ (fun l hl => exist l.key (Registration.key_mem_extended hl)) lists le_nextId
    simp [Completed.declared, family_eq]
  | refused _ _ => exact h.lists (by simp [Completed.declared]) nofun (.refl _) (Nat.le_refl _)

/-- What a method of a value resolves to comes from where the history says. -/
theorem Tells.resolve {past : List (Completed C)} {w : World C S} (h : Tells past w) (v : Value C)
    (name : String) :
    Option.Rel Origin.Gives (resolved? past v name) (w.registry.resolve v name) := by
  have hown := h.lookup v.typeKey name
  unfold resolved? Registry.resolve
  generalize origin? past v.typeKey name = o at hown ⊢
  generalize w.registry.lookup v.typeKey name = f at hown ⊢
  cases hown with
  | some hgives => exact .some hgives
  | none =>
    rw [Option.none_or]
    split
    · exact h.lookup .iterator name
    · exact .none

/-- An entry for a type is looked up exactly when it has an origin. -/
theorem Tells.isSome_lookup {past : List (Completed C)} {w : World C S} (h : Tells past w)
    (key : TypeKey) (name : String) :
    (w.registry.lookup key name).isSome = (origin? past key name).isSome := by
  have hlookup := h.lookup key name
  generalize origin? past key name = o at hlookup ⊢
  generalize w.registry.lookup key name = f at hlookup ⊢
  cases hlookup <;> rfl

end History

/-- A call leaves alone what resolves for a value when it registers nothing for the value's type nor,
where the value is iterable, for everything iterable. -/
theorem Registration.Effect.resolve_eq {call : Registration C} {w w' : World C S}
    {result : Except Error (Option TypeKey)} (h : call.Effect w result w') {v : Value C}
    (hown : v.typeKey ∉ Completed.keys ⟨call, result⟩)
    (hiterator : v.isIterable = true → .iterator ∉ Completed.keys ⟨call, result⟩) (name : String) :
    w'.registry.resolve v name = w.registry.resolve v name := by
  unfold Registry.resolve
  rw [h.lookup_eq hown name]
  cases hv : v.isIterable with
  | false => rfl
  | true => rw [h.lookup_eq (hiterator hv) name]

/-- A call succeeds exactly when all functions that it lists are declared. -/
theorem Registration.Effect.succeeds_iff {call : Registration C} {w w' : World C S}
    {result : Except Error (Option TypeKey)} (h : call.Effect w result w') :
    (∃ key?, result = .ok key?) ↔ call.Declared := by
  cases h with
  | @declares family key _ _ family_eq _ _ _ _ _ =>
    refine ⟨fun _ => ?_, fun _ => ⟨some key, rfl⟩⟩
    cases call with
    | declareRecord _ _ | declareUnion _ _ => trivial
    | _ => cases family_eq
  | lists _ declared _ _ => exact ⟨fun _ => declared, fun _ => ⟨none, rfl⟩⟩
  | refused _ undeclared => exact ⟨nofun, fun hdeclared => absurd hdeclared undeclared⟩

variable [Embedding C S]

/-- A history tells of every world that it leads to. -/
theorem History.tells {host : S} {past : List (Completed C)} {w : World C S}
    (h : History host past w) : Tells past w := by
  induction h with
  | start => exact .start host
  | call _ exist observed ih => exact ih.effect exist (Registration.effect_of_yields observed)
  | between _ registry_eq le_nextId ih => exact ih.later registry_eq le_nextId

/-- Where a declared method of the last argument resolves to a function, calling the method is calling
the function. -/
theorem Protocol.yields_call_iff {p : Protocol} {name : String} (hdeclares : p.declares name = true)
    {args : List (Value C)} {f : Func C} {w : World C S}
    (hresolve : w.registry.resolve (lastArgument args) name = some f) (r : Except Error (Value C))
    (w' : World C S) :
    (p.call name args : Action C S (Value C)).Yields w r w' ↔
      (DynamicDispatch.call f args).Yields w r w' := by
  obtain ⟨s, hs⟩ := Option.isSome_iff_exists.mp hdeclares
  simp only [Action.yields_iff_shows fun _ => false, p.shows_call_iff_of_resolve hs hresolve]

/-- After any history, a method of a value resolves to a function from the origin that the history
gives: the last listing for the value's own type by a call that succeeded, else the family that the
type came with, else, for lists and texts, the last listing for everything iterable; and to nothing
when there is none. Every declared type has a key of its own. Any further call ends, fails exactly
when it lists a function that its protocol does not declare, and changes nothing for values of other
types than those it registers for. A value implements a protocol with methods exactly when each method
has an origin under the value's own type, and then a call of each is a call of a function from it. -/
theorem resolve_history {host : S} {past : List (Completed C)} {w : World C S}
    (h : History host past w) :
    (∀ (v : Value C) (name : String),
      Option.Rel Origin.Gives (History.resolved? past v name) (w.registry.resolve v name)) ∧
    ((History.declared past).map (·.1)).Nodup ∧
    (∀ e ∈ History.declared past, e.1 ∉ (Registry.standardParts C).map (·.1)) ∧
    (∀ call : Registration C, ∃ result w', call.action.Yields w result w' ∧
      ((∃ key?, result = .ok key?) ↔ call.Declared) ∧
      ∀ v : Value C, v.typeKey ∉ Completed.keys ⟨call, result⟩ →
        (v.isIterable = true → .iterator ∉ Completed.keys ⟨call, result⟩) →
        ∀ name, w'.registry.resolve v name = w.registry.resolve v name) ∧
    (∀ (p : Protocol) (v : Value C), p.methods ≠ [] →
      ∃ b, (implementsProtocol p v).Yields w (.ok b) w ∧
        (b = true ↔ ∀ s ∈ p.methods, (History.origin? past v.typeKey s.name).isSome = true) ∧
        (b = true → ∀ s ∈ p.methods, ∀ args, lastArgument args = v →
          ∃ o f, History.origin? past v.typeKey s.name = some o ∧ o.Gives f ∧
            ∀ r w', (p.call s.name args).Yields w r w' ↔ (call f args).Yields w r w')) := by
  have htells := h.tells
  refine ⟨htells.resolve, htells.nodup, htells.disjoint, fun call => ?_, fun p v hmethods => ?_⟩
  · obtain ⟨result, w', hyields, heffect⟩ := call.yields w
    exact ⟨result, w', hyields, heffect.succeeds_iff, fun v => heffect.resolve_eq⟩
  · have himplements : w.registry.implements p v.typeKey = true ↔
        ∀ s ∈ p.methods, (History.origin? past v.typeKey s.name).isSome = true := by
      simp only [Registry.implements_eq_true hmethods, htells.isSome_lookup]
    refine ⟨_, ⟨0, rfl⟩, himplements, fun hb s hs args hargs => ?_⟩
    have hsome := himplements.mp hb s hs
    obtain ⟨o, ho⟩ := Option.isSome_iff_exists.mp hsome
    have hlookup := htells.lookup v.typeKey s.name
    rw [ho] at hlookup
    obtain ⟨f, hf, hgives⟩ := Origin.exists_of_rel hlookup
    have hdeclares : p.declares s.name = true :=
      List.find?_isSome.mpr ⟨s, hs, beq_self_eq_true s.name⟩
    refine ⟨o, f, ho, hgives, Protocol.yields_call_iff hdeclares ?_⟩
    rw [hargs, Registry.resolve, hf]

/-- A rendering in which every value is nil. -/
def renderedAsNil : Func Empty := ⟨0, "show", 1, .builtin .nil .render⟩

/-- Every type can be extended by it. -/
theorem yields_extendType_renderedAsNil (key : TypeKey) (w : World Empty Unit) :
    ∃ w', (Registration.extendType key [(Method.render.protocol, [renderedAsNil])]).action.Yields w
      (.ok none) w' := by
  obtain ⟨result, w', hyields, heffect⟩ :=
    Registration.yields_extendType key [(Method.render.protocol, [renderedAsNil])] w
  cases heffect with
  | declares family_eq _ _ _ _ _ => cases family_eq
  | lists _ _ _ _ => exact ⟨w', hyields⟩
  | refused _ undeclared =>
    refine absurd ?_ undeclared
    simp [Registration.Declared, Method.protocol, Protocol.ofMethods, Protocol.declares,
      Protocol.method?, Method.name, renderedAsNil]

/-- Two record types are declared with one name and the same fields, under the identities `n` and
`n'`, and the first one is extended by a rendering. -/
def twins (n n' : Nat) : List (Completed Empty) :=
  [⟨.declareRecord "P" [], .ok (some (.record n))⟩, ⟨.declareRecord "P" [], .ok (some (.record n'))⟩,
    ⟨.extendType (.record n) [(Method.render.protocol, [renderedAsNil])], .ok none⟩]

/-- For the first of the two types the rendering is listed. -/
theorem resolved?_twins_first (n n' : Nat) :
    History.resolved? (twins n n') (.record ⟨n, "P", []⟩ []) "show" =
      some (.listed ⟨.record n, renderedAsNil, true⟩) := by
  simp [History.resolved?, History.origin?, History.listings, twins, Completed.listings,
    Registration.listings, Listing.last?, Value.typeKey, RecordType.key, renderedAsNil]

/-- The second one has the rendering that it was declared with. -/
theorem resolved?_twins_second {n n' : Nat} (hne : n ≠ n') :
    History.resolved? (twins n n') (.record ⟨n', "P", []⟩ []) "show" =
      some (.provided .record .render) := by
  have hprovided : (Registry.provided? (History.families (twins n n')) (.record n')
      Method.render.name : Option (Origin Empty)) = some (.provided .record .render) := by
    rw [Registry.provided?_name]
    simp [History.families, History.declared, twins, Completed.declared, Registration.family?,
      Registry.provider?, Family.methods]
  have hlast : Listing.last? (History.listings (twins n n')) (.record n') "show" = none := by
    simp [History.listings, twins, Completed.listings, Registration.listings, Listing.last?, hne]
  have horigin : History.origin? (twins n n') (.record n') "show" =
      some (.provided .record .render) := by
    rw [History.origin?, hlast]
    exact hprovided
  unfold History.resolved?
  change (History.origin? (twins n n') (.record n') "show").or _ = _
  rw [horigin]
  rfl

/-- Of two record types of one name and the same fields, of which the first has been extended by a
rendering, the first resolves to it and the other to what it was declared with. -/
theorem resolve_history_twins :
    ∃ (n n' : Nat) (w : World Empty Unit), History () (twins n n') w ∧ n ≠ n' ∧
      w.registry.resolve (.record ⟨n, "P", []⟩ []) "show" = some renderedAsNil ∧
      ∃ id, w.registry.resolve (.record ⟨n', "P", []⟩ []) "show" =
        some ⟨id, "show", 1, .builtin .record .render⟩ := by
  obtain ⟨w₁, hfirst, hfirstEffect⟩ :=
    Registration.yields_declareRecord (C := Empty) "P" [] (World.initial ())
  obtain ⟨w₂, hsecond, hsecondEffect⟩ := Registration.yields_declareRecord (C := Empty) "P" [] w₁
  generalize (World.initial (C := Empty) ()).nextId = n at hfirst hfirstEffect
  obtain ⟨hlt, -⟩ := hfirstEffect.below
  obtain ⟨-, hle⟩ := hsecondEffect.below
  obtain ⟨w₃, hthird⟩ := yields_extendType_renderedAsNil (.record n) w₂
  have hhistory : History () (twins n w₁.nextId) w₃ := by
    have hexist : (TypeKey.record n).Below w₂.nextId := Nat.lt_of_lt_of_le hlt hle
    exact ((History.start.call (by simp [Registration.extended]) hfirst).call
      (by simp [Registration.extended]) hsecond).call
      (by simpa [Registration.extended] using hexist) hthird
  obtain ⟨hresolve, -⟩ := resolve_history hhistory
  refine ⟨n, w₁.nextId, w₃, hhistory, Nat.ne_of_lt hlt, ?_, ?_⟩
  · have hrel := hresolve (.record ⟨n, "P", []⟩ []) "show"
    rw [resolved?_twins_first] at hrel
    obtain ⟨f, hf, next, rfl⟩ := Origin.exists_of_rel hrel
    exact hf
  · have hrel := hresolve (.record ⟨w₁.nextId, "P", []⟩ []) "show"
    rw [resolved?_twins_second (Nat.ne_of_lt hlt)] at hrel
    obtain ⟨f, hf, id, next, rfl⟩ := Origin.exists_of_rel hrel
    exact ⟨id, hf⟩

end DynamicDispatch
