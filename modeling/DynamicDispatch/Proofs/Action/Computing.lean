import DynamicDispatch.Proofs.Action.Trace

/-!
# Actions that only compute

An action that is run to get a value may take new identities, and otherwise leaves the world alone. What
it gives does not depend on how many identities have been handed out before, so that it can be run
again. Functions that do the same are pure. The rules below derive it for a composed action from its
parts.
-/

namespace DynamicDispatch

variable {C S α β γ : Type} [Embedding C S] {w : World C S}

namespace Action

/-- From `w` on, however many identities have been handed out since, an action ends without an error in
a value of which `P` holds, and takes identities at most. -/
def Computes (p : Action C S α) (w : World C S) (P : α → Prop) : Prop :=
  ∀ n, ∃ a m, p.Yields (w.minted n) (.ok a) (w.minted m) ∧ P a

/-- An action that yields a value and leaves every such world alone computes it. -/
theorem Computes.of_yields {p : Action C S α} {a : α}
    (h : ∀ n, p.Yields (w.minted n) (.ok a) (w.minted n)) : p.Computes w (· = a) :=
  fun n => ⟨a, n, h n, rfl⟩

/-- A value that is there is computed. -/
theorem Computes.pure {P : α → Prop} {a : α} (h : P a) :
    (Pure.pure a : Action C S α).Computes w P :=
  fun n => ⟨a, n, yields_pure a _, h⟩

/-- A sequence computes what its second part computes from any value of its first part. -/
theorem Computes.bind {p : Action C S α} {f : α → Action C S β} {P : α → Prop} {Q : β → Prop}
    (hp : p.Computes w P) (hf : ∀ a, P a → (f a).Computes w Q) : (p >>= f).Computes w Q := by
  intro n
  obtain ⟨a, m, hp, ha⟩ := hp n
  obtain ⟨b, m', hf, hb⟩ := hf a ha m
  exact ⟨b, m', hp.bind hf, hb⟩

/-- A sequence goes on from the one value that its first part computes. -/
theorem Computes.bind_eq {p : Action C S α} {f : α → Action C S β} {a : α} {Q : β → Prop}
    (hp : p.Computes w (· = a)) (hf : (f a).Computes w Q) : (p >>= f).Computes w Q :=
  hp.bind fun _ h => h ▸ hf

/-- A new function is one more identity. -/
theorem Computes.newFunc_bind {name : String} {arity : Nat} {code : Code C}
    {f : Func C → Action C S β} {Q : β → Prop}
    (hf : ∀ id, (f ⟨id, name, arity, code⟩).Computes w Q) :
    (minting (newFunc name arity code) >>= f).Computes w Q := by
  refine Computes.bind (P := fun g => ∃ id, g = ⟨id, name, arity, code⟩) (fun n => ?_) ?_
  · exact ⟨_, n + 1, ⟨0, rfl⟩, _, rfl⟩
  · rintro _ ⟨id, rfl⟩
    exact hf id

/-- A call computes what the function does. -/
theorem Computes.call {f : Func C} {args : List (Value C)} {P : Value C → Prop}
    (h : (f.body args).Computes w P) : (DynamicDispatch.call f args).Computes w P := by
  intro n
  obtain ⟨a, m, hbody, ha⟩ := h n
  exact ⟨a, m, hbody.call, ha⟩

/-- A fold computes the fold of what its steps compute. -/
theorem Computes.foldlM {step : β → α → Action C S β} {g : β → α → β} {xs : List α}
    (h : ∀ b, ∀ a ∈ xs, (step b a).Computes w (· = g b a)) (b : β) :
    (xs.foldlM step b).Computes w (· = xs.foldl g b) := by
  induction xs generalizing b with
  | nil => exact Computes.pure rfl
  | cons a xs ih =>
    have hrest : ∀ b, ∀ a' ∈ xs, (step b a').Computes w (· = g b a') :=
      fun b a' ha' => h b a' (List.mem_cons_of_mem a ha')
    rw [List.foldlM_cons]
    exact (h b a List.mem_cons_self).bind_eq (ih hrest (g b a))

/-- Mapping over a list computes what it computes for each element. -/
theorem Computes.mapM {f : α → Action C S β} {g : α → β} {xs : List α}
    (h : ∀ a ∈ xs, (f a).Computes w (· = g a)) : (xs.mapM f).Computes w (· = xs.map g) := by
  induction xs with
  | nil => exact Computes.pure rfl
  | cons a xs ih =>
    obtain ⟨hfirst, hrest⟩ := List.forall_mem_cons.mp h
    rw [List.mapM_cons]
    exact hfirst.bind_eq ((ih hrest).bind_eq (Computes.pure rfl))

end Action

/-- From `w` on, a function gives `φ v` for every one value `v`, never an error, and takes identities at
most. -/
def Callable.Computes (f : Func C) (w : World C S) (φ : Value C → Value C) : Prop :=
  ∀ v, (call f [v]).Computes w (· = φ v)

/-- From `w` on, a function holds on one value `v` exactly when `p v`, never gives an error, and takes
identities at most. -/
def Callable.Decides (f : Func C) (w : World C S) (p : Value C → Bool) : Prop :=
  ∀ v, (call f [v]).Computes w fun r => r.truthy = p v

end DynamicDispatch
