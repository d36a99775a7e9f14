import DynamicDispatch.Proofs.Registry.History

/-!
# Extensions register all of their functions or none

An extension lists functions in groups. Every group is checked before anything is registered, so the
first function that its protocol does not declare, wherever it stands, refuses the whole extension, and
then the world is as it was. Otherwise all functions are registered, of several for one type and name
the last one, and nothing else of the registry changes.
-/

namespace DynamicDispatch

variable {C S : Type}

namespace Protocol

/-- Functions listed in groups, in order, each with the protocol that it is listed for. -/
def listed (groups : List (Protocol × List (Func C))) : List (Protocol × Func C) :=
  groups.flatMap fun group => group.2.map (group.1, ·)

/-- The first of some listed functions that is not declared by its protocol. -/
def firstUndeclared? (functions : List (Protocol × Func C)) : Option (Protocol × Func C) :=
  functions.find? fun e => !e.1.declares e.2.name

/-- The error that names a function and the protocol that does not declare it. -/
def undeclaredError (p : Protocol) (f : Func C) : Error :=
  .invalidArgument "extend" s!"protocol '{p.name}' declares no method '{f.name}'"

/-- In one group the first function that is not declared is found together with the protocol. -/
theorem firstUndeclared?_group (p : Protocol) (functions : List (Func C)) :
    firstUndeclared? (functions.map (p, ·)) = (p.undeclared? functions).map (p, ·) := by
  rw [firstUndeclared?, List.find?_map]
  rfl

/-- The check of all groups is refused for the first function that is not declared. -/
theorem checkDeclared_eq (groups : List (Protocol × List (Func C))) :
    checkDeclared groups =
      match firstUndeclared? (listed groups) with
      | some (p, f) => .error (undeclaredError p f)
      | none => .ok () := by
  induction groups with
  | nil => rfl
  | cons group groups ih =>
    obtain ⟨p, functions⟩ := group
    have hfirst : firstUndeclared? (listed ((p, functions) :: groups)) =
        ((p.undeclared? functions).map (p, ·)).or (firstUndeclared? (listed groups)) := by
      rw [← firstUndeclared?_group]
      exact List.find?_append
    rw [hfirst, checkDeclared]
    cases p.undeclared? functions with
    | some f => rfl
    | none => exact ih

end Protocol

open DynamicDispatch.Action Protocol

variable [Embedding C S]

/-- What an extension by listed functions does to a world. A function that is not declared refuses it,
for the first such function, and the world stays as it was. When all are declared it succeeds, the
registry has the functions as they are to be registered, and of the rest of the world only the supply of
identities may have changed. -/
def AllOrNothing (extension : Action C S Unit) (functions : List (Protocol × Func C))
    (listings : List (Listing C)) (w : World C S) : Prop :=
  match firstUndeclared? functions with
  | some (p, f) => extension.Yields w (.error (undeclaredError p f)) w
  | none => ∃ registry nextId, extension.Yields w (.ok ()) { w with registry, nextId } ∧
      w.registry.Lists listings registry

/-- An extension that checks its groups and then registers their functions is of this kind. -/
theorem allOrNothing_checked (groups : List (Protocol × List (Func C)))
    {change : Registry C → StateM Nat (Registry C)} {listings : List (Listing C)}
    (lists : ∀ (r : Registry C) n, r.Lists listings ((change r).run n).1) (w : World C S) :
    AllOrNothing (done (checkDeclared groups) >>= fun _ => Action.register change) (listed groups)
      listings w := by
  unfold AllOrNothing
  rw [checkDeclared_eq groups]
  cases firstUndeclared? (listed groups) with
  | some e => exact yields_done _ w
  | none =>
    have hregister := Registration.yields_register change w
    exact ⟨_, _, (yields_done (.ok ()) w).bind hregister, lists w.registry w.nextId⟩

/-- Extending a type by groups of functions for several protocols, and extending a protocol by groups of
functions for several types, registers all functions or none, whatever the registry held before. The
first registers each function so that it collects its arguments, the second as it is. -/
theorem extensions_all_or_nothing (w : World C S) :
    (∀ (key : TypeKey) (groups : List (Protocol × List (Func C))),
      AllOrNothing (extendType key groups) (listed groups)
        (groups.flatMap fun group => group.2.map (⟨key, ·, true⟩)) w) ∧
    ∀ (p : Protocol) (groups : List (TypeKey × List (Func C))),
      AllOrNothing (extendProtocol p groups) (groups.flatMap fun group => group.2.map (p, ·))
        (groups.flatMap fun group => group.2.map (⟨group.1, ·, false⟩)) w := by
  refine ⟨fun key groups => ?_, fun p groups => ?_⟩
  · exact allOrNothing_checked groups (Registry.lists_extendGroups key groups) w
  · have hlisted : listed (groups.map fun group => (p, group.2)) =
        groups.flatMap fun group => group.2.map (p, ·) := by
      rw [listed, List.flatMap_map]
    rw [← hlisted]
    exact allOrNothing_checked _ (fun r _ => Registry.lists_extendRawGroups groups r) w

end DynamicDispatch
