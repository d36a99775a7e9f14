import Mathlib.Data.List.Monad
import DynamicDispatch.Interpreter
import DynamicDispatch.Proofs.Dispatch
import DynamicDispatch.Proofs.Registry.Lookup
import DynamicDispatch.Proofs.Value.Container

/-!
# Chaining containers

Chaining maps a function over a container and joins the containers that it gives. On lists and on
results this is what their monads do, whatever they hold, so the monad laws hold there. A `Maybe` is
normalized by every map and every join: nil inside becomes none, and a `Maybe` inside takes the place of
the outer one. There the laws hold between flattened results, and as they stand for flat ones.
-/

namespace DynamicDispatch.Collection

variable {C S : Type} [Embedding C S] {w : World C S} {f g unit chained : Func C}

open DynamicDispatch.Action

/-- The registry maps over the containers of a type and joins them by the methods of a family. -/
structure Chains (r : Registry C) (key : TypeKey) (family : Family) : Prop where
  map : r.Provides key family .map
  flatten : r.Provides key family .flatten

/-- Chaining computes what the family's join computes from what its map computes. -/
theorem Chains.computes_andThen {key : TypeKey} {family : Family} (h : Chains w.registry key family)
    (hkey : key ≠ .placeholder) {m r : Value C} {P : Value C → Prop} (hm : m.typeKey = key)
    (hr : r.typeKey = key) (hmap : (family.implementation .map [.func f, m]).Computes w (· = r))
    (hflatten : (family.implementation .flatten [r]).Computes w P) : (andThen f m).Computes w P := by
  subst hm
  have hmapped : (Generic.map f m).Computes w (· = r) := by
    have hgiven : ∀ v ∈ [Value.func f, m], v.isPlaceholder = false := by
      rw [List.forall_mem_cons, List.forall_mem_singleton]
      exact ⟨rfl, Value.isPlaceholder_of_typeKey_ne hkey⟩
    exact Computes.method h.map rfl hgiven hmap
  have hjoin : w.registry.Provides r.typeKey family .flatten := hr ▸ h.flatten
  have hgiven : ∀ v ∈ [r], v.isPlaceholder = false :=
    List.forall_mem_singleton.mpr (Value.isPlaceholder_of_typeKey_ne (hr ▸ hkey))
  exact hmapped.bind_eq (Computes.method hjoin rfl hgiven hflatten)

/-- A function that chains `g` to what `f` gives for its one argument. -/
def ChainsTo (S : Type) [Embedding C S] (chained f g : Func C) : Prop :=
  ∀ v, (chained.body [v] : Action C S (Value C)) = do andThen g (← call f [v])

/-- It computes what chaining `g` to the result of `f` computes. -/
theorem ChainsTo.computes {φ χ : Value C → Value C} (h : ChainsTo S chained f g)
    (hf : f.Computes w φ) (hg : ∀ v, (andThen g (φ v)).Computes w (· = χ v)) :
    chained.Computes w χ := by
  intro v
  apply Computes.call
  rw [h v]
  exact (hf v).bind_eq (hg v)

section Monad

variable {M : Type → Type} [Monad M] {embed : M (Value C) → Value C}

/-- Chaining a function to a container of values composes them as the monad of the containers does. -/
def Composes (w : World C S) (embed : M (Value C) → Value C) : Prop :=
  ∀ (f : Func C) (φ : Value C → M (Value C)), f.Computes w (fun v => embed (φ v)) →
    ∀ m, (andThen f (embed m)).Computes w (· = embed (m >>= φ))

/-- The laws of a lawful monad hold for chaining. -/
theorem Composes.laws [LawfulMonad M] (h : Composes w embed) {φ ψ : Value C → M (Value C)}
    (hf : f.Computes w fun v => embed (φ v)) (hg : g.Computes w fun v => embed (ψ v))
    (hunit : unit.Computes w fun v => embed (pure v)) (hchained : ChainsTo S chained f g) :
    (∀ x, (andThen f (embed (pure x))).Computes w (· = embed (φ x))) ∧
    (∀ m, (andThen unit (embed m)).Computes w (· = embed m)) ∧
    ∀ m, (andThen f (embed m) >>= andThen g).Computes w (· = embed (m >>= φ >>= ψ)) ∧
      (andThen chained (embed m)).Computes w (· = embed (m >>= φ >>= ψ)) := by
  have hcomputes : chained.Computes w fun v => embed (φ v >>= ψ) :=
    hchained.computes hf fun v => h g ψ hg (φ v)
  refine ⟨fun x => ?_, fun m => ?_, fun m => ⟨(h f φ hf m).bind_eq (h g ψ hg (m >>= φ)), ?_⟩⟩
  · simpa only [pure_bind] using h f φ hf (pure x)
  · simpa only [bind_pure] using h unit pure hunit m
  · rw [LawfulMonad.bind_assoc]
    exact h chained _ hcomputes m

end Monad

omit [Embedding C S] in
/-- Joining the lists that a function gives joins their elements. -/
theorem flattened_map (φ : Value C → List (Value C)) (xs : List (Value C)) :
    Methods.flattened (xs.map fun v => .list (φ v)) = xs.flatMap φ := by
  rw [Methods.flattened, List.flatMap_map]

/-- Chaining functions to lists composes them as lists do. -/
theorem composes_list (h : Chains w.registry .list .list) :
    Composes w (Value.list : List (Value C) → Value C) := by
  intro f φ hf xs
  have hmap : (Methods.list .map [.func f, .list xs]).Computes w
      (· = .list (xs.map fun v => .list (φ v))) :=
    (Computes.mapM fun v _ => hf v).bind_eq (Computes.pure rfl)
  refine h.computes_andThen nofun rfl rfl hmap ?_
  exact Computes.pure (congrArg Value.list (flattened_map φ xs))

/-- Chaining functions to results composes them up to the first refused value. -/
theorem composes_result (h : Chains w.registry (UnionType.result (C := C)).key .result) :
    Composes w (Result.ofExcept : Except (Value C) (Value C) → Value C) := by
  intro f φ hf m
  cases m with
  | ok v =>
    have hmap : (Methods.result .map [.func f, Result.ok v]).Computes w
        (· = Result.ofExcept (.ok (Result.ofExcept (φ v)))) :=
      (hf v).bind_eq (Computes.pure rfl)
    have hflatten : (Methods.result .flatten [Result.ok (Result.ofExcept (φ v))]).Computes w
        (· = Result.ofExcept (φ v)) := by
      cases φ v <;> exact Computes.pure rfl
    exact h.computes_andThen nofun (Result.typeKey_ofExcept (.ok v)) (Result.typeKey_ofExcept _) hmap
      hflatten
  | error e =>
    have hmap : (Methods.result .map [.func f, Result.err e]).Computes w
        (· = Result.ofExcept (.error e)) :=
      Computes.pure rfl
    exact h.computes_andThen nofun (Result.typeKey_ofExcept (.error e)) (Result.typeKey_ofExcept _) hmap
      (Computes.pure rfl)

/-- Containers of one value. -/
inductive Shape where
  | single
  | pair
  | accepted
  | refused
  | present
  | nested
  | boxed

/-- The functions of a small program. -/
inductive Wrapping where
  /-- Puts its argument into a container. -/
  | wrap (shape : Shape)
  /-- Chains the second of two such functions to the first one. -/
  | both (first second : Shape)

namespace Wrapping

/-- The container of a value. -/
def wrapped : Shape → Value Wrapping → Value Wrapping
  | .single, v => .list [v]
  | .pair, v => .list [v, v]
  | .accepted, v => Result.ok v
  | .refused, v => Result.err v
  | .present, v => Maybe.some v
  | .nested, v => Maybe.some (Maybe.some v)
  | .boxed, v => Maybe.some (.list [v])

/-- A function of the program as a value. -/
def func (c : Wrapping) : Func Wrapping := ⟨0, "wrap", 1, .host c⟩

instance : Embedding Wrapping Unit where
  body
    | wrap shape, args => return wrapped shape (argument args 0)
    | both first second, args => do
      andThen (wrap second).func (← call (wrap first).func [argument args 0])

/-- The functions that wrap their argument are pure. -/
theorem computes_wrap (shape : Shape) (w : World Wrapping Unit) :
    (wrap shape).func.Computes w (wrapped shape) :=
  fun _ => Action.Computes.call (Action.Computes.pure rfl)

/-- The other functions chain. -/
theorem chainsTo (first second : Shape) :
    ChainsTo Unit (both first second).func (wrap first).func (wrap second).func :=
  fun _ => rfl

end Wrapping

/-- For functions that always give lists, and for functions that always give results, chaining satisfies
the monad laws: the container of one value is the unit on the left and on the right, and two functions
can be chained one after the other or as one. Nothing is asked of the values inside. -/
theorem lists_and_results_chain (hlist : Chains w.registry .list .list)
    (hresult : Chains w.registry (UnionType.result (C := C)).key .result)
    (hchained : ChainsTo S chained f g) :
    (∀ φ ψ : Value C → List (Value C), f.Computes w (fun v => .list (φ v)) →
      g.Computes w (fun v => .list (ψ v)) → unit.Computes w (fun v => .list [v]) →
      (∀ x, (andThen f (.list [x])).Computes w (· = .list (φ x))) ∧
      (∀ xs, (andThen unit (.list xs)).Computes w (· = .list xs)) ∧
      ∀ xs, (andThen f (.list xs) >>= andThen g).Computes w
          (· = Value.list ((xs.flatMap φ).flatMap ψ)) ∧
        (andThen chained (.list xs)).Computes w (· = .list ((xs.flatMap φ).flatMap ψ))) ∧
    ∀ φ ψ : Value C → Except (Value C) (Value C), f.Computes w (fun v => Result.ofExcept (φ v)) →
      g.Computes w (fun v => Result.ofExcept (ψ v)) → unit.Computes w Result.ok →
      (∀ x, (andThen f (Result.ok x)).Computes w (· = Result.ofExcept (φ x))) ∧
      (∀ r, (andThen unit (Result.ofExcept r)).Computes w (· = Result.ofExcept r)) ∧
      ∀ r, (andThen f (Result.ofExcept r) >>= andThen g).Computes w
          (· = Result.ofExcept (r >>= φ >>= ψ)) ∧
        (andThen chained (Result.ofExcept r)).Computes w (· = Result.ofExcept (r >>= φ >>= ψ)) := by
  refine ⟨fun φ ψ hf hg hunit => ?_, fun φ ψ hf hg hunit => ?_⟩
  · exact (composes_list hlist).laws hf hg hunit hchained
  · exact (composes_result hresult).laws hf hg hunit hchained

/-- Lists of lists and results of results, at the start. -/
theorem lists_and_results_chain_nested :
    let w : World Wrapping Unit := World.initial ()
    let rows : Value Wrapping := .list [.list [.nil], .bool true]
    (andThen (Wrapping.wrap .single).func rows >>= andThen (Wrapping.wrap .pair).func).Computes w
      (· = Value.list [.list [.nil], .list [.nil], .bool true, .bool true]) ∧
    (andThen (Wrapping.both .single .pair).func rows).Computes w
      (· = Value.list [.list [.nil], .list [.nil], .bool true, .bool true]) ∧
    (andThen (Wrapping.wrap .accepted).func (Result.ok (Result.err .nil))).Computes w
      (· = Result.ok (Result.err .nil)) ∧
    (andThen (Wrapping.both .accepted .refused).func (Result.ok .nil)).Computes w
      (· = Result.err .nil) := by
  intro w rows
  have hw : w.registry.Standard := Registry.standard_standard firstFreeId
  have hlist : Chains w.registry .list .list := ⟨hw _ _ _ rfl, hw _ _ _ rfl⟩
  have hresult : Chains w.registry (UnionType.result (C := Wrapping)).key .result :=
    ⟨hw _ _ _ rfl, hw _ _ _ rfl⟩
  have hwrap := fun shape => Wrapping.computes_wrap shape w
  obtain ⟨-, -, hrows⟩ := (lists_and_results_chain hlist hresult (Wrapping.chainsTo .single .pair)).1
    (fun v => [v]) (fun v => [v, v]) (hwrap .single) (hwrap .pair) (hwrap .single)
  obtain ⟨-, hunit, hresults⟩ :=
    (lists_and_results_chain hlist hresult (Wrapping.chainsTo .accepted .refused)).2
      .ok .error (hwrap .accepted) (hwrap .refused) (hwrap .accepted)
  exact ⟨(hrows _).1, (hrows _).2, hunit (.ok (Result.err .nil)), (hresults (.ok .nil)).2⟩

/-- Joining a `Maybe` computes it flattened. -/
theorem computes_flatten_maybe {m : Value C} (hm : UnionType.maybe.contains m = true) :
    (Methods.maybe .flatten [m]).Computes w (· = Maybe.flattened m) := by
  cases m with
  | union type index fields =>
    have hid : (type.id == (UnionType.maybe (C := C)).id) = true := hm
    have hsubject : lastArgument [Value.union type index fields] = .union type index fields := rfl
    simp only [Methods.maybe, hsubject, Methods.instanceOf, if_pos hid, pure_bind, Maybe.flattened,
      presentFields?]
    cases type.caseName index == "Some" <;> exact Computes.pure rfl
  | _ => cases hm

/-- Chaining a function that gives a `Maybe` to a `Maybe` applies it to the value that is there and
flattens the result. -/
theorem computes_andThen_maybe (h : Chains w.registry (UnionType.maybe (C := C)).key .maybe)
    {φ : Value C → Value C} (hf : f.Computes w φ)
    (hφ : ∀ v, UnionType.maybe.contains (φ v) = true) (m : Option (Value C)) :
    (andThen f (Maybe.ofOption m)).Computes w (· = Maybe.flattened (m.elim Maybe.none φ)) := by
  have hm := Maybe.typeKey_of_contains (Maybe.contains_ofOption m)
  cases m with
  | none =>
    exact h.computes_andThen nofun hm hm (Computes.pure rfl) (Computes.pure rfl)
  | some v =>
    have hmap : (Methods.maybe .map [.func f, Maybe.some v]).Computes w (· = φ v) :=
      (hf v).bind_eq (Computes.pure (Maybe.of_eq_self (hφ v)))
    exact h.computes_andThen nofun hm (Maybe.typeKey_of_contains (hφ v)) hmap
      (computes_flatten_maybe (hφ v))

/-- Where the function gives one of the two forms of a `Maybe`, this is their composition, flattened. -/
theorem computes_andThen_maybeOf (h : Chains w.registry (UnionType.maybe (C := C)).key .maybe)
    {φ : Value C → Option (Value C)} (hf : f.Computes w fun v => Maybe.ofOption (φ v))
    (m : Option (Value C)) :
    (andThen f (Maybe.ofOption m)).Computes w (· = Maybe.flattened (Maybe.ofOption (m >>= φ))) := by
  have hchain := computes_andThen_maybe h hf (fun v => Maybe.contains_ofOption (φ v)) m
  cases m <;> exact hchain

/-- For functions that always give a `Maybe`, chaining one of them to a value that is there gives its
result flattened, and chaining the unit flattens too: either changes nothing exactly where what is
flattened is flat. When what the first function gives is flat, two functions chained as one give what
they give chained one after the other, flattened once more, and so the same when the second function's
result is flat as well. -/
theorem maybes_chain (h : Chains w.registry (UnionType.maybe (C := C)).key .maybe)
    {φ ψ : Value C → Option (Value C)} (hf : f.Computes w fun v => Maybe.ofOption (φ v))
    (hg : g.Computes w fun v => Maybe.ofOption (ψ v)) (hunit : unit.Computes w Maybe.some)
    (hchained : ChainsTo S chained f g) :
    (∀ x, (andThen f (Maybe.some x)).Computes w (· = Maybe.flattened (Maybe.ofOption (φ x)))) ∧
    (∀ m, (andThen unit (Maybe.ofOption m)).Computes w (· = Maybe.flattened (Maybe.ofOption m))) ∧
    (∀ m : Option (Value C), Maybe.flattened (Maybe.ofOption m) = Maybe.ofOption m ↔ Maybe.Flat m) ∧
    ∀ m, (∀ v ∈ m, Maybe.Flat (φ v)) → ∃ r,
      (andThen f (Maybe.ofOption m) >>= andThen g).Computes w (· = r) ∧
      (andThen chained (Maybe.ofOption m)).Computes w (· = Maybe.flattened r) ∧
      r = Maybe.flattened (Maybe.ofOption (m >>= φ >>= ψ)) ∧
      (Maybe.Flat (m >>= φ >>= ψ) → Maybe.flattened r = r) := by
  have hcomputes : chained.Computes w fun v => Maybe.flattened (Maybe.ofOption (φ v >>= ψ)) :=
    hchained.computes hf fun v => computes_andThen_maybeOf h hg (φ v)
  refine ⟨fun x => computes_andThen_maybeOf h hf (some x), fun m => ?_, Maybe.flattened_eq_iff,
    fun m hm => ⟨Maybe.flattened (Maybe.ofOption (m >>= φ >>= ψ)), ?_, ?_, rfl, fun hflat => ?_⟩⟩
  · simpa only [bind_pure] using computes_andThen_maybeOf (φ := pure) h hunit m
  · -- What `f` gives is flat, so joining takes no layer off before `g` is applied.
    have hflat : Maybe.Flat (m >>= φ) := by
      cases m with
      | none => exact fun v hv => (Option.not_mem_none v hv).elim
      | some v => exact hm v rfl
    have hfirst := computes_andThen_maybeOf h hf m
    rw [(Maybe.flattened_eq_iff _).mpr hflat] at hfirst
    exact hfirst.bind_eq (computes_andThen_maybeOf h hg (m >>= φ))
  · have hchain := computes_andThen_maybe h hcomputes
      (fun v => Maybe.contains_flattened (Maybe.contains_ofOption (φ v >>= ψ))) m
    cases m <;> exact hchain
  · rw [(Maybe.flattened_eq_iff _).mpr hflat, (Maybe.flattened_eq_iff _).mpr hflat]

/-- A value chained through functions of which the first one gives a flat `Maybe`, at the start. -/
theorem maybes_chain_present :
    let w : World Wrapping Unit := World.initial ()
    let m : Value Wrapping := Maybe.some (.bool true)
    (andThen (Wrapping.wrap .present).func m >>= andThen (Wrapping.wrap .boxed).func).Computes w
      (· = Maybe.some (.list [.bool true])) ∧
    (andThen (Wrapping.both .present .boxed).func m).Computes w
      (· = Maybe.some (.list [.bool true])) := by
  intro w m
  have hw : w.registry.Standard := Registry.standard_standard firstFreeId
  have hwrap := fun shape => Wrapping.computes_wrap shape w
  obtain ⟨-, -, -, hassoc⟩ := maybes_chain (w := w) (φ := fun v => some v)
    (ψ := fun v => some (.list [v])) ⟨hw _ _ _ rfl, hw _ _ _ rfl⟩ (hwrap .present) (hwrap .boxed)
    (hwrap .present) (Wrapping.chainsTo .present .boxed)
  have hflat : ∀ v ∈ some (Value.bool (C := Wrapping) true), Maybe.Flat (some v) := by
    simp [Maybe.Flat, Value.isNil, UnionType.contains]
  obtain ⟨r, hleft, hright, rfl, -⟩ := hassoc (some (.bool true)) hflat
  exact ⟨hleft, hright⟩

/-- A function that gives a nested `Maybe` loses a layer of it, the unit loses nil, and two functions
chained to nil give different values one after the other and as one. -/
theorem nested_chains_differ :
    let w : World Wrapping Unit := World.initial ()
    (andThen (Wrapping.wrap .nested).func (Maybe.some (.bool true))).Computes w
      (· = Maybe.some (.bool true)) ∧
    Maybe.some (Value.bool true) ≠ Wrapping.wrapped .nested (.bool true) ∧
    (andThen (Wrapping.wrap .present).func (Maybe.some .nil)).Computes w (· = Maybe.none) ∧
    Maybe.none ≠ Maybe.some (Value.nil (C := Wrapping)) ∧
    (andThen (Wrapping.wrap .present).func (Maybe.some .nil) >>=
      andThen (Wrapping.wrap .boxed).func).Computes w (· = Maybe.none) ∧
    (andThen (Wrapping.both .present .boxed).func (Maybe.some .nil)).Computes w
      (· = Maybe.some (.list [.nil])) := by
  intro w
  have hw : w.registry.Standard := Registry.standard_standard firstFreeId
  have h : Chains w.registry (UnionType.maybe (C := Wrapping)).key .maybe :=
    ⟨hw _ _ _ rfl, hw _ _ _ rfl⟩
  have hwrap := fun shape => Wrapping.computes_wrap shape w
  have hpresent := computes_andThen_maybeOf (φ := fun v => some v) h (hwrap .present) (some .nil)
  have hboxed := fun m => computes_andThen_maybeOf (φ := fun v => some (.list [v])) h (hwrap .boxed) m
  have hchained := (Wrapping.chainsTo .present .boxed).computes (hwrap .present)
    fun v => hboxed (some v)
  refine ⟨computes_andThen_maybeOf (φ := fun v => some (Maybe.some v)) h (hwrap .nested)
    (some (.bool true)), ?_, hpresent, ?_, hpresent.bind_eq (hboxed none),
    computes_andThen_maybeOf (φ := fun v => some (.list [v])) h hchained (some .nil)⟩
  · exact fun h => by cases congrArg presentFields? h
  · exact fun h => by cases congrArg presentFields? h

end DynamicDispatch.Collection
