import DynamicDispatch.Proofs.Action.Computing
import DynamicDispatch.Proofs.Action.Simulation
import Mathlib.Data.List.Forall2

/-!
# Actions of which one sees the same in some worlds

What an operation is seen to do can depend on what holds of the world, such as what is registered. Two
actions agree on such worlds when from each of them one sees the same of both. Agreement is kept by
sequences whose first part leaves such a world, so that a loop is compared with another loop step by
step.
-/

namespace DynamicDispatch.Action

variable {C S α β γ : Type} [Embedding C S] {watch : Func C → Bool} {P : World C S → Prop}

/-- One sees the same of two actions from every world of which `P` holds. -/
def AgreeOn (watch : Func C → Bool) (P : World C S → Prop) (p q : Action C S α) : Prop :=
  ∀ w, P w → ∀ calls r w', p.Shows watch w calls r w' ↔ q.Shows watch w calls r w'

/-- Run in a world of which `P` holds, an action is seen to leave such a world, and its result is good
unless it is an error. -/
def Leaves (watch : Func C → Bool) (P : World C S → Prop) (good : α → Prop) (p : Action C S α) :
    Prop :=
  ∀ w, P w → ∀ calls a w', p.Shows watch w calls (.ok a) w' → P w' ∧ good a

namespace Leaves

/-- A sequence leaves such a world when its parts do. -/
theorem bind {good : α → Prop} {good' : β → Prop} {p : Action C S α} {f : α → Action C S β}
    (hp : Leaves watch P good p) (hf : ∀ a, good a → Leaves watch P good' (f a)) :
    Leaves watch P good' (p >>= f) := by
  intro w hw calls b w' h
  rcases shows_bind_iff.mp h with ⟨calls₁, a, w₁, calls₂, hshown, hrest, -⟩ | ⟨e, -, he⟩
  · obtain ⟨hw₁, ha⟩ := hp w hw _ _ _ hshown
    exact hf a ha w₁ hw₁ _ _ _ hrest
  · cases he

/-- A good result is left at once. -/
theorem pure {good : α → Prop} {a : α} (h : good a) :
    Leaves watch P good (Pure.pure a : Action C S α) := by
  intro w hw calls b w' hshown
  obtain ⟨-, hb, rfl⟩ := shows_pure_iff.mp hshown
  exact ⟨hw, Except.ok.inj hb ▸ h⟩

/-- A fold leaves such a world when its steps do. -/
theorem foldlM {good : β → Prop} {step : β → α → Action C S β} {items : List α}
    (h : ∀ b, good b → ∀ a ∈ items, Leaves watch P good (step b a)) {b : β} (hb : good b) :
    Leaves watch P good (items.foldlM step b) := by
  induction items generalizing b with
  | nil => exact pure hb
  | cons a items ih =>
    rw [List.foldlM_cons]
    exact (h b hb a List.mem_cons_self).bind fun b' hb' =>
      ih (fun b hb a ha => h b hb a (List.mem_cons_of_mem _ ha)) hb'

/-- Mapping over a list leaves such a world when it does for each member, and gives a good result for
each. -/
theorem mapM {good : α → β → Prop} {f : α → Action C S β} {items : List α}
    (h : ∀ a ∈ items, Leaves watch P (good a) (f a)) :
    Leaves watch P (List.Forall₂ good items) (items.mapM f) := by
  induction items with
  | nil => exact pure .nil
  | cons a items ih =>
    obtain ⟨hfirst, hrest⟩ := List.forall_mem_cons.mp h
    rw [List.mapM_cons]
    exact hfirst.bind fun b hb => (ih hrest).bind fun bs hbs => pure (.cons hb hbs)

/-- An action that yields a good result and leaves the world as it is. -/
theorem of_yields {good : α → Prop} {p : Action C S α} {w : World C S} {a : α}
    (h : p.Yields w (.ok a) w) (ha : good a) : Leaves watch (· = w) good p := by
  rintro w rfl calls b w' hshown
  obtain ⟨hb, rfl⟩ := hshown.yields.unique h
  exact ⟨rfl, Except.ok.inj hb ▸ ha⟩

/-- Less can be said of the result. -/
theorem mono {good good' : α → Prop} {p : Action C S α} (h : Leaves watch P good p)
    (hgood : ∀ a, good a → good' a) : Leaves watch P good' p :=
  fun w hw _ _ _ hshown => ⟨(h w hw _ _ _ hshown).1, hgood _ (h w hw _ _ _ hshown).2⟩

/-- An action that computes takes identities at most. -/
theorem of_computes {good : α → Prop} {p : Action C S α} {w : World C S} (h : p.Computes w good) :
    Leaves watch (fun w' => ∃ n, w' = w.minted n) good p := by
  rintro w' ⟨n, rfl⟩ calls a w'' hshown
  obtain ⟨b, m, hyields, hb⟩ := h n
  obtain ⟨ha, rfl⟩ := hshown.yields.unique hyields
  exact ⟨⟨m, rfl⟩, Except.ok.inj ha ▸ hb⟩

/-- The result is yielded from a world of which `P` holds. -/
theorem yielded {good : α → Prop} {p : Action C S α} (h : Leaves watch P good p) :
    Leaves watch P (fun a => ∃ w w', P w ∧ p.Yields w (.ok a) w') p :=
  fun w hw _ _ w' hshown => ⟨(h w hw _ _ w' hshown).1, w, w', hw, hshown.yields⟩

end Leaves

namespace AgreeOn

/-- An action agrees with itself. -/
theorem refl (p : Action C S α) : AgreeOn watch P p p := fun _ _ _ _ _ => Iff.rfl

/-- Actions that are alike agree on all worlds. -/
theorem of_alike {p q : Action C S α} (h : Alike watch Eq p q) : AgreeOn watch P p q :=
  fun w _ => alike_eq_iff.mp h w

/-- A first part of which nothing is seen but its result can be left out. -/
theorem of_silent {p : Action C S α} {a : α} {f : α → Action C S β} {q : Action C S β}
    (hp : ∀ w, P w → p.Shows watch w [] (.ok a) w) (h : AgreeOn watch P (f a) q) :
    AgreeOn watch P (p >>= f) q :=
  fun w hw calls r w' => (hp w hw).bind_iff.trans (h w hw calls r w')

/-- Sequences agree when their first parts agree and leave such a world, and then what comes after. -/
theorem bind {good : α → Prop} {p q : Action C S α} {f g : α → Action C S β}
    (hpq : AgreeOn watch P p q) (hq : Leaves watch P good q)
    (hfg : ∀ a, good a → AgreeOn watch P (f a) (g a)) : AgreeOn watch P (p >>= f) (q >>= g) := by
  intro w hw calls r w'
  rw [shows_bind_iff, shows_bind_iff]
  refine or_congr ⟨?_, ?_⟩ (exists_congr fun e => and_congr_left' (hpq w hw calls _ w'))
  · rintro ⟨calls₁, a, w₁, calls₂, hp, hf, heq⟩
    have hshown := (hpq w hw _ _ _).mp hp
    obtain ⟨hw₁, ha⟩ := hq w hw _ _ _ hshown
    exact ⟨calls₁, a, w₁, calls₂, hshown, (hfg a ha w₁ hw₁ _ _ _).mp hf, heq⟩
  · rintro ⟨calls₁, a, w₁, calls₂, hshown, hg, heq⟩
    obtain ⟨hw₁, ha⟩ := hq w hw _ _ _ hshown
    exact ⟨calls₁, a, w₁, calls₂, (hpq w hw _ _ _).mpr hshown, (hfg a ha w₁ hw₁ _ _ _).mpr hg, heq⟩

/-- Before the same end, what agrees agrees. -/
theorem before {p q : Action C S α} (h : AgreeOn watch P p q) (f : α → Action C S β) :
    AgreeOn watch P (p >>= f) (q >>= f) :=
  fun w hw calls r w' => by simp only [shows_bind_iff, h w hw]

/-- After the same beginning, which leaves such a world, what agrees agrees. -/
theorem after {good : α → Prop} {p : Action C S α} {f g : α → Action C S β}
    (hp : Leaves watch P good p) (hfg : ∀ a, good a → AgreeOn watch P (f a) (g a)) :
    AgreeOn watch P (p >>= f) (p >>= g) :=
  (refl p).bind hp hfg

/-- Folds agree whose steps agree and leave such a world. -/
theorem foldlM {step : β → α → Action C S β} {step' : β → γ → Action C S β} {key : γ → α}
    {items : List γ}
    (h : ∀ b, ∀ c ∈ items, AgreeOn watch P (step b (key c)) (step' b c))
    (hleaves : ∀ b, ∀ c ∈ items, Leaves watch P (fun _ => True) (step' b c)) (b : β) :
    AgreeOn watch P ((items.map key).foldlM step b) (items.foldlM step' b) := by
  induction items generalizing b with
  | nil => exact refl _
  | cons c items ih =>
    obtain ⟨hfirst, hrest⟩ := List.forall_mem_cons.mp fun c hc b => h b c hc
    obtain ⟨hleave, hleaves⟩ := List.forall_mem_cons.mp fun c hc b => hleaves b c hc
    rw [List.map_cons, List.foldlM_cons, List.foldlM_cons]
    exact (hfirst b).bind (hleave b) fun b _ =>
      ih (fun b c hc => hrest c hc b) (fun b c hc => hleaves c hc b) b

/-- Maps over lists agree when, member by member, the actions agree and leave such a world. -/
theorem mapM {δ : Type} {R : γ → δ → Prop} {f : γ → Action C S β} {g : δ → Action C S β}
    {items : List γ} {others : List δ} (hitems : List.Forall₂ R items others)
    (h : ∀ d ∈ others, ∀ c, R c d → AgreeOn watch P (f c) (g d))
    (hleaves : ∀ d ∈ others, Leaves watch P (fun _ => True) (g d)) :
    AgreeOn watch P (items.mapM f) (others.mapM g) := by
  induction hitems with
  | nil => exact refl _
  | cons hrelated _ ih =>
    obtain ⟨hfirst, hrest⟩ := List.forall_mem_cons.mp h
    obtain ⟨hleave, hleaves⟩ := List.forall_mem_cons.mp hleaves
    rw [List.mapM_cons, List.mapM_cons]
    exact (hfirst _ hrelated).bind hleave fun b _ => (ih hrest hleaves).before fun bs => pure (b :: bs)

/-- Wherever identities at most have been taken, what agrees with an action computes what it does. -/
theorem computes {p q : Action C S α} {w : World C S} {good : α → Prop}
    (h : AgreeOn (fun _ => false) (fun w' => ∃ n, w' = w.minted n) p q) (hq : q.Computes w good) :
    p.Computes w good := by
  intro n
  obtain ⟨a, m, hyields, ha⟩ := hq n
  obtain ⟨calls, hshown⟩ := (yields_iff_shows fun _ => false).mp hyields
  exact ⟨a, m, ((h _ ⟨n, rfl⟩ calls _ _).mpr hshown).yields, ha⟩

end AgreeOn

end DynamicDispatch.Action
