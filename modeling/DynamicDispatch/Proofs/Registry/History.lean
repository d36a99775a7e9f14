import DynamicDispatch.Proofs.Action.Run
import DynamicDispatch.Proofs.Registry.Listing
import DynamicDispatch.Proofs.Registry.Lookup

/-!
# What a history of registrations resolves to

Types are declared and extended in any order. A history keeps the calls and what each one gave; from
it alone one can tell which function a method of a value resolves to: the one listed last for the
value's own type, else the one that the type was declared with, else, for an iterable value, the one
listed last for everything iterable. Every declared type has a key of its own.
-/

namespace DynamicDispatch

variable {C S : Type}

/-- The standard method of a name. -/
def Method.named? (name : String) : Option Method := Method.all.find? (·.name = name)

/-- A standard method is found by its name, and by no other. -/
theorem Method.named?_eq_some {name : String} {m : Method} (h : named? name = some m) :
    m.name = name := by
  simpa using List.find?_some h

theorem Method.named?_name (m : Method) : named? m.name = some m := by
  cases m <;> decide

/-- A call that adds to the registry. -/
inductive Registration (C : Type) where
  | declareRecord (name : String) (fields : List (String × Descriptor (Value C)))
  | declareUnion (name : String) (cases : List (String × List (Descriptor (Value C))))
  | extendType (key : TypeKey) (groups : List (Protocol × List (Func C)))
  | extendProtocol (protocol : Protocol) (groups : List (TypeKey × List (Func C)))

namespace Registration

/-- What the call does; it gives the key of the type that it declares. -/
def action : Registration C → Action C S (Option TypeKey)
  | .declareRecord name fields => do return some (← DynamicDispatch.declareRecord name fields).key
  | .declareUnion name cases => do return some (← DynamicDispatch.declareUnion name cases).key
  | .extendType key groups => do
    DynamicDispatch.extendType key groups
    return none
  | .extendProtocol p groups => do
    DynamicDispatch.extendProtocol p groups
    return none

/-- The types that the call extends. -/
def extended : Registration C → List TypeKey
  | .extendType key _ => [key]
  | .extendProtocol _ groups => groups.map (·.1)
  | _ => []

/-- Whether every function that the call lists is declared by its protocol. -/
def Declared : Registration C → Prop
  | .extendType _ groups => ∀ group ∈ groups, ∀ f ∈ group.2, group.1.declares f.name = true
  | .extendProtocol p groups => ∀ group ∈ groups, ∀ f ∈ group.2, p.declares f.name = true
  | _ => True

/-- The functions that the call lists, in order. -/
def listings : Registration C → List (Listing C)
  | .extendType key groups => groups.flatMap fun group => group.2.map (⟨key, ·, true⟩)
  | .extendProtocol _ groups => groups.flatMap fun group => group.2.map (⟨group.1, ·, false⟩)
  | _ => []

/-- The family of the type that the call declares. -/
def family? : Registration C → Option Family
  | .declareRecord _ _ => some .record
  | .declareUnion _ _ => some .union
  | _ => none

end Registration

/-- A call that adds to the registry, with what it gave. -/
structure Completed (C : Type) where
  call : Registration C
  result : Except Error (Option TypeKey)

namespace Completed

/-- What was listed: nothing by a call that failed. -/
def listings (c : Completed C) : List (Listing C) :=
  match c.result with
  | .ok _ => c.call.listings
  | .error _ => []

/-- The type that was declared, with its family. -/
def declared (c : Completed C) : List (TypeKey × Family) :=
  match c.call.family?, c.result with
  | some family, .ok (some key) => [(key, family)]
  | _, _ => []

/-- The types that the call registered something for. -/
def keys (c : Completed C) : List TypeKey := c.declared.map (·.1) ++ c.listings.map (·.key)

end Completed

namespace History

/-- Everything listed in a history, in order. -/
def listings (past : List (Completed C)) : List (Listing C) := past.flatMap Completed.listings

/-- The types declared in a history, with their families. -/
def declared (past : List (Completed C)) : List (TypeKey × Family) := past.flatMap Completed.declared

/-- All types that exist after a history, with their families. -/
def families (past : List (Completed C)) : List (TypeKey × Family) :=
  Registry.standardParts C ++ declared past

end History

/-- Where the function comes from that a method resolves to: a listing, or the type's family. -/
inductive Origin (C : Type) where
  | listed (l : Listing C)
  | provided (family : Family) (m : Method)

/-- The functions that come from an origin. -/
def Origin.Gives : Origin C → Func C → Prop
  | .listed l, g => l.Gives g
  | .provided family m, g =>
    ∃ id next, g = ((curry ⟨id, m.name, m.arity, .builtin family m⟩).run next).1

/-- What families installed one after the other provide for a type under a name. -/
def Registry.provided? (part : List (TypeKey × Family)) (key : TypeKey) (name : String) :
    Option (Origin C) := do
  let m ← Method.named? name
  let family ← provider? part key m
  return .provided family m

namespace History

/-- Where the entry for a type and a name comes from: the last listing, else the type's family. -/
def origin? (past : List (Completed C)) (key : TypeKey) (name : String) : Option (Origin C) :=
  ((Listing.last? (listings past) key name).map .listed).or
    (Registry.provided? (families past) key name)

/-- Where the function comes from that a method of a value resolves to: the entry for the value's own
type, else, for an iterable value, the one for everything iterable. -/
def resolved? (past : List (Completed C)) (v : Value C) (name : String) : Option (Origin C) :=
  (origin? past v.typeKey name).or (if v.isIterable then origin? past .iterator name else none)

end History

/-- The key of a type is below an identity when the type's identity is. -/
def TypeKey.Below (n : Nat) : TypeKey → Prop
  | .record id | .union id => id < n
  | _ => True

/-- A greater identity is above the same keys. -/
theorem TypeKey.Below.mono {key : TypeKey} {n n' : Nat} (h : key.Below n) (hle : n ≤ n') :
    key.Below n' := by
  cases key with
  | record id | union id => exact Nat.lt_of_lt_of_le h hle
  | _ => trivial

/-- A history of calls from the start, and the world that it has led to. A call extends types whose
identities were handed out before. In between anything may happen that leaves the registry alone and
takes back no identity. -/
inductive History [Embedding C S] (host : S) : List (Completed C) → World C S → Prop
  | start : History host [] (World.initial host)
  | call {past : List (Completed C)} {call : Registration C} {w w' : World C S}
      {result : Except Error (Option TypeKey)} (earlier : History host past w)
      (exist : ∀ key ∈ call.extended, key.Below w.nextId)
      (observed : call.action.Yields w result w') : History host (past ++ [⟨call, result⟩]) w'
  | between {past : List (Completed C)} {w w' : World C S} (earlier : History host past w)
      (registry_eq : w'.registry = w.registry) (le_nextId : w.nextId ≤ w'.nextId) :
      History host past w'

/-- The world in which the next identity has been taken for a type, and the type's family installed. -/
def World.withType (w : World C S) (key : TypeKey) (family : Family) : World C S :=
  let installed := (w.registry.installPart [(key, family)]).run (w.nextId + 1)
  { w with registry := installed.1, nextId := installed.2 }

/-- What a call does to the world: it declares a type under a new key, or lists its functions, or is
refused because a function is not declared by its protocol. -/
inductive Registration.Effect (call : Registration C) (w : World C S) :
    Except Error (Option TypeKey) → World C S → Prop
  | declares {family : Family} {key : TypeKey} {w' : World C S} {n : Nat}
      (family_eq : call.family? = some family) (new : ¬ key.Below w.nextId)
      (below : key.Below w'.nextId) (key_ne : key ≠ .iterator)
      (registry_eq : w'.registry = ((w.registry.installPart [(key, family)]).run n).1)
      (le_nextId : w.nextId ≤ w'.nextId) : Effect call w (.ok (some key)) w'
  | lists {w' : World C S} (family_eq : call.family? = none) (declared : call.Declared)
      (lists : w.registry.Lists call.listings w'.registry) (le_nextId : w.nextId ≤ w'.nextId) :
      Effect call w (.ok none) w'
  | refused {e : Error} (family_eq : call.family? = none) (undeclared : ¬ call.Declared) :
      Effect call w (.error e) w

/-- The declaration of a type under a key that is new takes the next identity. -/
theorem Registration.Effect.declares_next {call : Registration C} {family : Family} {key : TypeKey}
    {w : World C S} (family_eq : call.family? = some family) (new : ¬ key.Below w.nextId)
    (below : key.Below (w.nextId + 1)) (key_ne : key ≠ .iterator) :
    Effect call w (.ok (some key)) (w.withType key family) := by
  have hgrows := Grows.installPart [(key, family)] w.registry (w.nextId + 1)
  exact .declares family_eq new (below.mono hgrows) key_ne rfl (Nat.le_of_succ_le hgrows)

/-- After a declaration the identity of the new type is taken. -/
theorem Registration.Effect.below {call : Registration C} {key : TypeKey} {w w' : World C S}
    (h : Effect call w (.ok (some key)) w') : key.Below w'.nextId ∧ w.nextId ≤ w'.nextId := by
  cases h with
  | declares _ _ below _ _ le_nextId => exact ⟨below, le_nextId⟩

/-- A protocol's check passes exactly when it declares all the functions. -/
theorem Protocol.undeclared?_eq_none {p : Protocol} {functions : List (Func C)} :
    p.undeclared? functions = none ↔ ∀ f ∈ functions, p.declares f.name = true := by
  simp [undeclared?]

/-- The check of several groups passes exactly when each group's protocol declares its functions. -/
theorem Protocol.checkDeclared_eq_ok {groups : List (Protocol × List (Func C))} :
    checkDeclared groups = .ok () ↔
      ∀ group ∈ groups, ∀ f ∈ group.2, group.1.declares f.name = true := by
  induction groups with
  | nil => simp [checkDeclared]
  | cons group groups ih =>
    rw [checkDeclared, List.forall_mem_cons, ← undeclared?_eq_none, ← ih]
    cases group.1.undeclared? group.2 <;> simp

namespace Registration

variable [Embedding C S]

open DynamicDispatch.Action

/-- What a registration leads to. -/
theorem yields_register (change : Registry C → StateM Nat (Registry C)) (w : World C S) :
    (Action.register change).Yields w (.ok ()) { w with
      registry := ((change w.registry).run w.nextId).1,
      nextId := ((change w.registry).run w.nextId).2 } :=
  ⟨0, rfl⟩

/-- An extension that checks its functions and then lists them does so, or is refused. -/
theorem yields_checked {call : Registration C} {groups : List (Protocol × List (Func C))}
    {change : Registry C → StateM Nat (Registry C)}
    (action_eq : (call.action : Action C S (Option TypeKey)) =
      (done (Protocol.checkDeclared groups) >>= fun _ => register change) >>= fun _ => pure none)
    (family_eq : call.family? = none)
    (declared_iff : Protocol.checkDeclared groups = .ok () ↔ call.Declared)
    (lists : ∀ (r : Registry C) n, r.Lists call.listings ((change r).run n).1) (grows : ∀ r, Grows (change r))
    (w : World C S) : ∃ result w', call.action.Yields w result w' ∧ Effect call w result w' := by
  rw [action_eq]
  cases hcheck : Protocol.checkDeclared groups with
  | error e =>
    refine ⟨.error e, w, ⟨0, rfl⟩, .refused family_eq fun hdeclared => ?_⟩
    rw [declared_iff.mpr hdeclared] at hcheck
    cases hcheck
  | ok _ =>
    have hyields := (yields_register change w).bind (f := fun _ => pure (none : Option TypeKey))
      (yields_pure none _)
    exact ⟨.ok none, _, hyields, .lists family_eq (declared_iff.mp hcheck)
      (lists w.registry w.nextId) (grows w.registry w.nextId)⟩

/-- An extension of a type lists its functions or is refused. -/
theorem yields_extendType (key : TypeKey) (groups : List (Protocol × List (Func C)))
    (w : World C S) : ∃ result w', (action (.extendType key groups)).Yields w result w' ∧
      Effect (.extendType key groups) w result w' :=
  yields_checked rfl rfl Protocol.checkDeclared_eq_ok (Registry.lists_extendGroups key groups)
    (Grows.foldlM (fun r group => .extend key group.2 r) groups) w

/-- An extension of a protocol lists its functions or is refused. -/
theorem yields_extendProtocol (p : Protocol) (groups : List (TypeKey × List (Func C)))
    (w : World C S) : ∃ result w', (action (.extendProtocol p groups)).Yields w result w' ∧
      Effect (.extendProtocol p groups) w result w' := by
  refine yields_checked rfl rfl ?_ (fun r _ => ?_) (fun r => ?_) w
  · rw [Protocol.checkDeclared_eq_ok, List.forall_mem_map]
    rfl
  · exact Registry.lists_extendRawGroups groups r
  · exact .pure _

/-- The declaration of a record type takes the next identity for it. -/
theorem yields_declareRecord (name : String) (fields : List (String × Descriptor (Value C)))
    (w : World C S) : ∃ w', (action (.declareRecord name fields)).Yields w
        (.ok (some (.record w.nextId))) w' ∧
      Effect (.declareRecord name fields) w (.ok (some (.record w.nextId))) w' :=
  ⟨w.withType (.record w.nextId) .record, ⟨0, rfl⟩,
    .declares_next rfl (Nat.lt_irrefl w.nextId) (Nat.lt_succ_self w.nextId) nofun⟩

/-- The declaration of a union type takes the next identity for it. -/
theorem yields_declareUnion (name : String) (cases : List (String × List (Descriptor (Value C))))
    (w : World C S) : ∃ w', (action (.declareUnion name cases)).Yields w
        (.ok (some (.union w.nextId))) w' ∧
      Effect (.declareUnion name cases) w (.ok (some (.union w.nextId))) w' :=
  ⟨w.withType (.union w.nextId) .union, ⟨0, rfl⟩,
    .declares_next rfl (Nat.lt_irrefl w.nextId) (Nat.lt_succ_self w.nextId) nofun⟩

/-- Every call ends, with one of the effects. -/
theorem yields (call : Registration C) (w : World C S) :
    ∃ result w', call.action.Yields w result w' ∧ call.Effect w result w' := by
  cases call with
  | declareRecord name fields => exact ⟨_, yields_declareRecord name fields w⟩
  | declareUnion name cases => exact ⟨_, yields_declareUnion name cases w⟩
  | extendType key groups => exact yields_extendType key groups w
  | extendProtocol p groups => exact yields_extendProtocol p groups w

/-- What a call is observed to do is one of the effects. -/
theorem effect_of_yields {call : Registration C} {w w' : World C S}
    {result : Except Error (Option TypeKey)} (h : call.action.Yields w result w') :
    call.Effect w result w' := by
  obtain ⟨result', w'', h', heffect⟩ := call.yields w
  obtain ⟨rfl, rfl⟩ := h.unique h'
  exact heffect

end Registration

end DynamicDispatch
