import DynamicDispatch.Proofs.Action.Computing
import DynamicDispatch.Proofs.Action.Simulation
import DynamicDispatch.Proofs.Currying.Slots
import DynamicDispatch.Proofs.Registry.Install

/-!
# Calling a standard method

A call of a method reads the registry once and calls what it finds there. A call of a standard method
goes through the registry and through the function that collects the arguments. Where the registry has
the method from a family and the arguments are complete, what remains of it is what the family does:
this is stated once, for every method and every family, and for everyone who does not watch the
implementations themselves.
-/

namespace DynamicDispatch

variable {C S : Type}

/-- A family's implementation of a method, or a function that collects the arguments for one. -/
def Callable.implements (f : Func C) (m : Method) : Bool :=
  match f.code with
  | .builtin _ m' => m' = m
  | .curried _ g | .collecting _ g _ =>
    match g.code with
    | .builtin _ m' => m' = m
    | _ => false
  | _ => false

/-- Watches functions of the embedding program only, of these the ones that are chosen. -/
def Callable.isHost (chosen : C → Bool) (f : Func C) : Bool :=
  match f.code with
  | .host c => chosen c
  | _ => false

/-- Implementations of methods are none of them. -/
theorem Callable.isHost_of_implements (chosen : C → Bool) {m : Method} (g : Func C)
    (h : g.implements m = true) : g.isHost chosen = false := by
  unfold isHost
  split
  case h_1 hcode => simp only [implements, hcode, Bool.false_eq_true] at h
  case h_2 => rfl

/-- A call of a declared method reads the registry once, for the last argument. -/
theorem Protocol.call_eq {p : Protocol} {name : String} {s : Signature}
    (hs : p.method? name = some s) (args : List (Value C)) :
    (p.call name args : Action C S (Value C)) = .read fun w =>
      match w.registry.resolve (lastArgument args) name with
      | some f => DynamicDispatch.call f args
      | none => .fail (.missingImplementation p.name name s.params (lastArgument args).typeName) := by
  have hname : s.name = name := by simpa using List.find?_some hs
  subst hname
  unfold Protocol.call
  rw [hs]
  refine congrArg Action.read (funext fun w => ?_)
  cases hresolve : w.registry.resolve (lastArgument args) s.name <;>
    simp only [Action.ok, Action.bind_done_ok, hresolve] <;> rfl

variable [Embedding C S] {watch : Func C → Bool} {w w' : World C S} {args : List (Value C)}
  {calls : List (SeenCall C)} {r : Except Error (Value C)}

/-- Where the last argument resolves to a function, one sees a call of it. -/
theorem Protocol.shows_call_iff_of_resolve {p : Protocol} {name : String} {s : Signature}
    (hs : p.method? name = some s) {f : Func C}
    (hresolve : w.registry.resolve (lastArgument args) name = some f) (calls : List (SeenCall C))
    (r : Except Error (Value C)) (w' : World C S) :
    (p.call name args).Shows watch w calls r w' ↔
      (DynamicDispatch.call f args).Shows watch w calls r w' := by
  rw [p.call_eq hs]
  simp only [Action.Shows, Action.observe, hresolve]

/-- Where it resolves to nothing, one sees that the implementation is missing. -/
theorem Protocol.shows_call_of_missing {p : Protocol} {name : String} {s : Signature}
    (hs : p.method? name = some s) (hresolve : w.registry.resolve (lastArgument args) name = none) :
    (p.call name args).Shows watch w []
      (.error (.missingImplementation p.name name s.params (lastArgument args).typeName)) w := by
  rw [p.call_eq hs]
  exact ⟨0, by simp only [Action.observe, hresolve, Action.fail]⟩

/-- One who does not watch the implementations of a standard method sees, of a call with complete
arguments, what the family does that the registry has it from. -/
theorem Method.shows_call_iff_of_provides {m : Method}
    (hwatch : ∀ g : Func C, g.implements m = true → watch g = false) {family : Family}
    (hprovides : w.registry.Provides (lastArgument args).typeKey family m)
    (hlength : args.length = m.arity) (hgiven : ∀ v ∈ args, v.isPlaceholder = false)
    (calls : List (SeenCall C)) (r : Except Error (Value C)) (w' : World C S) :
    (m.call args).Shows watch w calls r w' ↔
      (family.implementation m args).Shows watch w calls r w' := by
  obtain ⟨id, next, hlookup⟩ := hprovides
  let f : Func C := ⟨id, m.name, m.arity, .builtin family m⟩
  have hresolve : w.registry.resolve (lastArgument args) m.name = some ((curry f).run next).1 := by
    rw [Registry.resolve, hlookup]
  have himplementation : Action.Alike watch Eq (DynamicDispatch.call f args)
      (family.implementation m args : Action C S (Value C)) :=
    Action.alike_call (hwatch f (by simp [f, Callable.implements])) args
  rw [Method.call, Protocol.shows_call_iff_of_resolve m.method?_protocol hresolve]
  rcases curry_eq_or_collects f next with hself | hcollects
  · rw [hself]
    exact Action.alike_eq_iff.mp himplementation w calls r w'
  · have hunseen : watch ((curry f).run next).1 = false := by
      rcases hcollects with hcode | ⟨hcode, -⟩ <;>
        exact hwatch _ (by simp [Callable.implements, hcode, f])
    exact Action.alike_eq_iff.mp
      ((hcollects.alike_call hunseen hgiven hlength).trans himplementation) w calls r w'

/-- A standard method that the registry has from a family for the subject's type is seen to do what the
family does, given as many arguments as the method declares, none of them a hole. -/
theorem Action.Shows.method {family : Family} {m : Method}
    (hwatch : ∀ g : Func C, g.implements m = true → watch g = false)
    (hprovides : w.registry.Provides (lastArgument args).typeKey family m)
    (hlength : args.length = m.arity) (hgiven : ∀ v ∈ args, v.isPlaceholder = false)
    (h : (family.implementation m args).Shows watch w calls r w') :
    (m.call args).Shows watch w calls r w' :=
  (Method.shows_call_iff_of_provides hwatch hprovides hlength hgiven calls r w').mpr h

/-- It yields what the family's implementation yields. -/
theorem Action.Yields.method {family : Family} {m : Method}
    (hprovides : w.registry.Provides (lastArgument args).typeKey family m)
    (hlength : args.length = m.arity) (hgiven : ∀ v ∈ args, v.isPlaceholder = false)
    (h : (family.implementation m args).Yields w r w') : (m.call args).Yields w r w' := by
  obtain ⟨calls, hshows⟩ := (Action.yields_iff_shows fun _ => false).mp h
  exact (Shows.method (fun _ _ => rfl) hprovides hlength hgiven hshows).yields

/-- A standard method that the registry has from a family computes what the family's implementation
computes. -/
theorem Action.Computes.method {family : Family} {m : Method} {P : Value C → Prop}
    (hprovides : w.registry.Provides (lastArgument args).typeKey family m)
    (hlength : args.length = m.arity) (hgiven : ∀ v ∈ args, v.isPlaceholder = false)
    (h : (family.implementation m args).Computes w P) : (m.call args).Computes w P := by
  intro n
  obtain ⟨a, k, hyields, ha⟩ := h n
  exact ⟨a, k, Yields.method (w := w.minted n) hprovides hlength hgiven hyields, ha⟩

end DynamicDispatch
