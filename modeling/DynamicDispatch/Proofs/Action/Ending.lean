import DynamicDispatch.Proofs.Action.Observation

/-!
# Actions that end

An action need not end, as the functions that it calls need not. Where each of its parts ends and keeps
a property of the world, the whole does: the rules below derive it. Whether errors may occur on the way
is said by a proposition, so that one derivation serves for both.
-/

namespace DynamicDispatch.Action

variable {C S α β : Type} [Embedding C S] {I : World C S → Prop} {fails : Prop}

/-- A sequence yields the error of its first part. -/
theorem Yields.bind_error {p : Action C S α} {e : Error} {w w' : World C S}
    (h : p.Yields w (.error e) w') (f : α → Action C S β) : (p >>= f).Yields w (.error e) w' := by
  obtain ⟨calls, hshows⟩ := (yields_iff_shows fun _ => false).mp h
  exact (shows_bind_iff.mpr (Or.inr ⟨e, hshows, rfl⟩)).yields

/-- The result as a value is yielded where the result is. -/
theorem Yields.attempt {p : Action C S α} {r : Except Error α} {w w' : World C S}
    (h : p.Yields w r w') : p.attempt.Yields w (.ok r) w' := by
  obtain ⟨calls, hshows⟩ := (yields_iff_shows fun _ => false).mp h
  exact (shows_attempt_iff.mpr ⟨r, rfl, hshows⟩).yields

/-- From every world of which `I` holds, an action ends in such a world, with a value of which `Q` holds
or, where it may fail, with an error. -/
def Ends (I : World C S → Prop) (fails : Prop) (p : Action C S α) (Q : α → Prop) : Prop :=
  ∀ w, I w → (∃ a w', p.Yields w (.ok a) w' ∧ I w' ∧ Q a) ∨
    (fails ∧ ∃ e w', p.Yields w (.error e) w' ∧ I w')

namespace Ends

/-- A value that is there. -/
theorem pure {Q : α → Prop} {a : α} (h : Q a) : (Pure.pure a : Action C S α).Ends I fails Q :=
  fun w hw => Or.inl ⟨a, w, yields_pure a w, hw, h⟩

/-- An error, where errors may occur. -/
theorem fail {Q : α → Prop} (h : fails) (e : Error) : (Action.fail e : Action C S α).Ends I fails Q :=
  fun w hw => Or.inr ⟨h, e, w, yields_done _ w, hw⟩

/-- What holds of the value less precisely. -/
theorem mono {p : Action C S α} {P Q : α → Prop} (h : p.Ends I fails P) (himp : ∀ a, P a → Q a) :
    p.Ends I fails Q := by
  intro w hw
  rcases h w hw with ⟨a, w', hyields, hI, ha⟩ | herror
  · exact Or.inl ⟨a, w', hyields, hI, himp a ha⟩
  · exact Or.inr herror

/-- A sequence ends when its second part does, whatever value the first part ends with. -/
theorem bind {p : Action C S α} {f : α → Action C S β} {P : α → Prop} {Q : β → Prop}
    (hp : p.Ends I fails P) (hf : ∀ a, P a → (f a).Ends I fails Q) : (p >>= f).Ends I fails Q := by
  intro w hw
  rcases hp w hw with ⟨a, w₁, hp, hI, ha⟩ | ⟨hfails, e, w₁, hp, hI⟩
  · rcases hf a ha w₁ hI with ⟨b, w₂, hf, hI, hb⟩ | ⟨hfails, e, w₂, hf, hI⟩
    · exact Or.inl ⟨b, w₂, hp.bind hf, hI, hb⟩
    · exact Or.inr ⟨hfails, e, w₂, hp.bind hf, hI⟩
  · exact Or.inr ⟨hfails, e, w₁, hp.bind_error f, hI⟩

/-- What goes on from the world. -/
theorem read {next : World C S → Action C S α} {Q : α → Prop}
    (h : ∀ w, I w → (next w).Ends I fails Q) : (Action.read next).Ends I fails Q :=
  fun w hw => h w hw w hw

/-- A call ends when what the function does ends. -/
theorem call {f : Func C} {args : List (Value C)} {Q : Value C → Prop}
    (h : (f.body args).Ends I fails Q) : (DynamicDispatch.call f args).Ends I fails Q := by
  intro w hw
  rcases h w hw with ⟨a, w', hbody, hrest⟩ | ⟨hfails, e, w', hbody, hI⟩
  · exact Or.inl ⟨a, w', hbody.call, hrest⟩
  · exact Or.inr ⟨hfails, e, w', hbody.call, hI⟩

/-- With its result as a value an action ends without an error. -/
theorem attempt {p : Action C S α} {Q : α → Prop} (h : p.Ends I fails Q) :
    p.attempt.Ends I False fun _ => True := by
  intro w hw
  rcases h w hw with ⟨a, w', hyields, hI, -⟩ | ⟨-, e, w', hyields, hI⟩
  · exact Or.inl ⟨.ok a, w', hyields.attempt, hI, trivial⟩
  · exact Or.inl ⟨.error e, w', hyields.attempt, hI, trivial⟩

/-- Mapping over a list ends when it does for every element. -/
theorem mapM {f : α → Action C S β} {xs : List α} (h : ∀ x ∈ xs, (f x).Ends I fails fun _ => True) :
    (xs.mapM f).Ends I fails fun _ => True := by
  induction xs with
  | nil => exact pure trivial
  | cons x xs ih =>
    obtain ⟨hfirst, hrest⟩ := List.forall_mem_cons.mp h
    rw [List.mapM_cons]
    exact hfirst.bind fun _ _ => (ih hrest).bind fun _ _ => pure trivial

end Ends

end DynamicDispatch.Action
