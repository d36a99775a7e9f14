import DynamicDispatch.Proofs.Action.Observation

/-!
# Actions that are seen to do the same

An action follows another one when, from every world, it shows the same calls, leaves the same world
and ends with a related result. Following is kept by sequences, so that it is derived for a composed
action from its parts; it is stated with the depth to which the action that is followed is observed.
Actions that follow each other at every depth are alike.
-/

namespace DynamicDispatch

variable {C S α β γ δ : Type}

/-- Related results: related values, or the same error. -/
inductive ResultRel (rel : α → β → Prop) : Except Error α → Except Error β → Prop
  | ok {a : α} {b : β} (h : rel a b) : ResultRel rel (.ok a) (.ok b)
  | error (e : Error) : ResultRel rel (.error e) (.error e)

/-- Equal results are related by equality, and no others. -/
theorem resultRel_eq_iff {r r' : Except Error α} : ResultRel Eq r r' ↔ r = r' := by
  constructor
  · rintro (⟨rfl⟩ | ⟨e⟩) <;> rfl
  · rintro rfl
    cases r with
    | ok a => exact .ok rfl
    | error e => exact .error e

/-- Results related the other way round. -/
theorem ResultRel.flip {rel : α → β → Prop} {r : Except Error α} {r' : Except Error β}
    (h : ResultRel rel r r') : ResultRel (flip rel) r' r := by
  cases h with
  | ok h => exact .ok h
  | error e => exact .error e

namespace Action

variable [Embedding C S]

/-- Whatever is seen of `p` at a depth is seen of `q`, with a related result. -/
def Follows (watch : Func C → Bool) (depth : Nat) (rel : α → β → Prop) (p : Action C S α)
    (q : Action C S β) : Prop :=
  ∀ w calls r w', p.observe (observed watch depth) w = some ⟨calls, r, w'⟩ →
    ∃ r', ResultRel rel r r' ∧ q.Shows watch w calls r' w'

variable {watch : Func C → Bool} {depth : Nat}

/-- What shows whatever is shown by another action follows it. -/
theorem Follows.of_shows {rel : α → β → Prop} {p : Action C S α} {q : Action C S β}
    (h : ∀ w calls r w', p.Shows watch w calls r w' →
      ∃ r', ResultRel rel r r' ∧ q.Shows watch w calls r' w') : Follows watch depth rel p q :=
  fun w calls r w' hp => h w calls r w' ⟨depth, hp⟩

/-- Related values follow each other. -/
theorem Follows.pure {rel : α → β → Prop} {a : α} {b : β} (h : rel a b) :
    Follows watch depth rel (Pure.pure a : Action C S α) (Pure.pure b : Action C S β) := by
  refine Follows.of_shows fun w calls r w' hp => ?_
  obtain ⟨rfl, rfl, rfl⟩ := shows_pure_iff.mp hp
  exact ⟨.ok b, .ok h, shows_pure _ _⟩

/-- A weaker relation is enough. -/
theorem Follows.mono {rel rel' : α → β → Prop} {p : Action C S α} {q : Action C S β}
    (h : Follows watch depth rel p q) (hrel : ∀ a b, rel a b → rel' a b) :
    Follows watch depth rel' p q := by
  intro w calls r w' hp
  obtain ⟨r', hr, hq⟩ := h w calls r w' hp
  cases hr with
  | ok hab => exact ⟨_, .ok (hrel _ _ hab), hq⟩
  | error e => exact ⟨_, .error e, hq⟩

/-- A sequence follows another one when its parts do. -/
theorem Follows.bind {rel : α → β → Prop} {rel' : γ → δ → Prop} {p : Action C S α}
    {q : Action C S β} {f : α → Action C S γ} {g : β → Action C S δ}
    (hpq : Follows watch depth rel p q) (hfg : ∀ a b, rel a b → Follows watch depth rel' (f a) (g b)) :
    Follows watch depth rel' (p >>= f) (q >>= g) := by
  intro w calls r w' h
  rw [observe_bind] at h
  cases hp : p.observe (observed watch depth) w with
  | none => simp [hp] at h
  | some s =>
    obtain ⟨calls₁, r₁, w₁⟩ := s
    rw [hp] at h
    obtain ⟨r₂, hr, hq⟩ := hpq w calls₁ r₁ w₁ hp
    cases hr with
    | error e =>
      obtain ⟨rfl, rfl, rfl⟩ : calls₁ = calls ∧ .error e = r ∧ w₁ = w' := by simpa using h
      exact ⟨.error e, .error e, shows_bind_iff.mpr (Or.inr ⟨e, hq, rfl⟩)⟩
    | @ok a b hab =>
      obtain ⟨⟨calls₂, r', w''⟩, hf, heq⟩ := Option.map_eq_some_iff.mp h
      obtain ⟨rfl, rfl, rfl⟩ : calls₁ ++ calls₂ = calls ∧ r' = r ∧ w'' = w' := by
        simpa [Sight.after] using heq
      obtain ⟨r', hr, hg⟩ := hfg a b hab w₁ calls₂ _ _ hf
      exact ⟨r', hr, hq.bind hg⟩

/-- Actions of which one sees the same from every world, up to related results. -/
def Alike (watch : Func C → Bool) (rel : α → β → Prop) (p : Action C S α) (q : Action C S β) : Prop :=
  ∀ depth, Follows watch depth rel p q ∧ Follows watch depth (flip rel) q p

/-- Actions of which one sees the same are alike, and no others. -/
theorem alike_eq_iff {p q : Action C S α} :
    Alike watch Eq p q ↔ ∀ w calls r w', p.Shows watch w calls r w' ↔ q.Shows watch w calls r w' := by
  constructor
  · intro h w calls r w'
    constructor
    · rintro ⟨depth, hp⟩
      obtain ⟨r', hr, hq⟩ := (h depth).1 w calls r w' hp
      exact resultRel_eq_iff.mp hr ▸ hq
    · rintro ⟨depth, hq⟩
      obtain ⟨r', hr, hp⟩ := (h depth).2 w calls r w' hq
      exact resultRel_eq_iff.mp hr.flip ▸ hp
  · intro h depth
    refine ⟨Follows.of_shows fun w calls r w' hp => ?_, Follows.of_shows fun w calls r w' hq => ?_⟩
    · exact ⟨r, resultRel_eq_iff.mpr rfl, (h w calls r w').mp hp⟩
    · exact ⟨r, (resultRel_eq_iff.mpr rfl : ResultRel Eq r r).flip, (h w calls r w').mpr hq⟩

/-- Every action is like itself. -/
theorem Alike.refl (p : Action C S α) : Alike watch Eq p p :=
  alike_eq_iff.mpr fun _ _ _ _ => Iff.rfl

/-- Actions that are alike are so the other way round. -/
theorem Alike.symm {p q : Action C S α} (h : Alike watch Eq p q) : Alike watch Eq q p :=
  alike_eq_iff.mpr fun w calls r w' => (alike_eq_iff.mp h w calls r w').symm

/-- Results that are related are so the other way round. -/
theorem Alike.flip {rel : α → β → Prop} {p : Action C S α} {q : Action C S β}
    (h : Alike watch rel p q) : Alike watch (flip rel) q p :=
  fun depth => ⟨(h depth).2, (h depth).1⟩

/-- Likeness is passed on to what shows the same. -/
theorem Alike.trans {rel : α → β → Prop} {p : Action C S α} {q u : Action C S β}
    (h : Alike watch rel p q) (h' : Alike watch Eq q u) : Alike watch rel p u := by
  refine fun depth => ⟨fun w calls r w' hp => ?_, Follows.of_shows fun w calls r w' hu => ?_⟩
  · obtain ⟨r', hr, hq⟩ := (h depth).1 w calls r w' hp
    exact ⟨r', hr, (alike_eq_iff.mp h' w calls r' w').mp hq⟩
  · obtain ⟨depth, hq⟩ := (alike_eq_iff.mp h' w calls r w').mpr hu
    exact (h depth).2 w calls r w' hq

/-- What shows the same as an action is like whatever that is like. -/
theorem Alike.eq_trans {rel : α → β → Prop} {p q : Action C S α} {u : Action C S β}
    (h : Alike watch Eq p q) (h' : Alike watch rel q u) : Alike watch rel p u :=
  (h'.flip.trans h.symm).flip

/-- Related values are alike. -/
theorem Alike.pure {rel : α → β → Prop} {a : α} {b : β} (h : rel a b) :
    Alike watch rel (Pure.pure a : Action C S α) (Pure.pure b : Action C S β) :=
  fun _ => ⟨Follows.pure h, Follows.pure h⟩

/-- A weaker relation is enough. -/
theorem Alike.mono {rel rel' : α → β → Prop} {p : Action C S α} {q : Action C S β}
    (h : Alike watch rel p q) (hrel : ∀ a b, rel a b → rel' a b) : Alike watch rel' p q :=
  fun depth => ⟨(h depth).1.mono hrel, (h depth).2.mono fun b a => hrel a b⟩

/-- Sequences of parts that are alike are alike. -/
theorem Alike.bind {rel : α → β → Prop} {rel' : γ → δ → Prop} {p : Action C S α}
    {q : Action C S β} {f : α → Action C S γ} {g : β → Action C S δ} (hpq : Alike watch rel p q)
    (hfg : ∀ a b, rel a b → Alike watch rel' (f a) (g b)) :
    Alike watch rel' (p >>= f) (q >>= g) :=
  fun depth => ⟨(hpq depth).1.bind fun a b hab => (hfg a b hab depth).1,
    (hpq depth).2.bind fun b a hab => (hfg a b hab depth).2⟩

/-- After the same beginning, what is alike is alike. -/
theorem Alike.after {rel : γ → δ → Prop} (p : Action C S α) {f : α → Action C S γ}
    {g : α → Action C S δ} (h : ∀ a, Alike watch rel (f a) (g a)) :
    Alike watch rel (p >>= f) (p >>= g) :=
  (Alike.refl p).bind fun a _ hab => hab ▸ h a

/-- After the same beginning it is enough to be alike for the results that the beginning shows. -/
theorem Alike.after_shown {p : Action C S α} {f g : α → Action C S β}
    (h : ∀ w calls a w', p.Shows watch w calls (.ok a) w' → Alike watch Eq (f a) (g a)) :
    Alike watch Eq (p >>= f) (p >>= g) := by
  have hone : ∀ {f g : α → Action C S β}, (∀ w calls a w', p.Shows watch w calls (.ok a) w' →
      Alike watch Eq (f a) (g a)) → ∀ w calls r w',
        (p >>= f).Shows watch w calls r w' → (p >>= g).Shows watch w calls r w' := by
    intro f g h w calls r w' hsequence
    rcases shows_bind_iff.mp hsequence with ⟨calls₁, a, w₁, calls₂, hp, hf, rfl⟩ | ⟨e, hp, rfl⟩
    · exact hp.bind ((alike_eq_iff.mp (h w calls₁ a w₁ hp) _ _ _ _).mp hf)
    · exact shows_bind_iff.mpr (Or.inr ⟨e, hp, rfl⟩)
  exact alike_eq_iff.mpr fun w calls r w' =>
    ⟨hone h w calls r w', hone (fun w calls a w' hp => (h w calls a w' hp).symm) w calls r w'⟩

/-- Before the same end, what is alike is alike. -/
theorem Alike.before {p q : Action C S α} (h : Alike watch Eq p q) (f : α → Action C S β) :
    Alike watch Eq (p >>= f) (q >>= f) :=
  h.bind fun a _ hab => hab ▸ Alike.refl (f a)

/-- The results of actions that are alike, as values. -/
theorem Alike.attempt {rel : α → β → Prop} {p : Action C S α} {q : Action C S β}
    (h : Alike watch rel p q) : Alike watch (ResultRel rel) p.attempt q.attempt := by
  refine fun depth => ⟨Follows.of_shows fun w calls r w' hp => ?_,
    Follows.of_shows fun w calls r w' hq => ?_⟩
  · obtain ⟨r, rfl, ⟨depth, hp⟩⟩ := shows_attempt_iff.mp hp
    obtain ⟨r', hr, hq⟩ := (h depth).1 w calls r w' hp
    exact ⟨.ok r', .ok hr, shows_attempt_iff.mpr ⟨r', rfl, hq⟩⟩
  · obtain ⟨r, rfl, ⟨depth, hq⟩⟩ := shows_attempt_iff.mp hq
    obtain ⟨r', hr, hp⟩ := (h depth).2 w calls r w' hq
    exact ⟨.ok r', .ok hr.flip, shows_attempt_iff.mpr ⟨r', rfl, hp⟩⟩

/-- A request of which nothing of its own is seen is like the action it stands for. -/
theorem alike_request {q : Request C} (h : ∀ s : Sight C S q.Answer, q.sight watch s = s) :
    Alike watch Eq (request q : Action C S q.Answer) q.action := by
  refine alike_eq_iff.mpr fun w calls r w' => ?_
  rw [shows_request_iff]
  constructor
  · rintro ⟨inside, hinside, rfl⟩
    rw [h]
    exact hinside
  · intro hq
    exact ⟨calls, hq, by rw [h]⟩

/-- A call that is not watched is like what the function does. -/
theorem alike_call {f : Func C} (h : watch f = false) (args : List (Value C)) :
    Alike watch Eq (call f args : Action C S (Value C)) (f.body args) :=
  alike_request (q := .call f args) fun s => by
    simp only [Request.sight, h, Bool.false_eq_true, if_false]

/-- What is seen of an action is seen of one that is like it. -/
theorem Alike.shows {rel : α → β → Prop} {p : Action C S α} {q : Action C S β}
    (h : Alike watch rel p q) {w w' : World C S} {calls : List (SeenCall C)} {r : Except Error α}
    (hp : p.Shows watch w calls r w') : ∃ r', ResultRel rel r r' ∧ q.Shows watch w calls r' w' := by
  obtain ⟨depth, hp⟩ := hp
  exact (h depth).1 w calls r w' hp

/-- Actions of which one sees the same from one world, up to related results. -/
structure AlikeFrom (watch : Func C → Bool) (w : World C S) (rel : α → β → Prop)
    (p : Action C S α) (q : Action C S β) : Prop where
  forth : ∀ {calls r w'}, p.Shows watch w calls r w' →
    ∃ r', ResultRel rel r r' ∧ q.Shows watch w calls r' w'
  back : ∀ {calls r' w'}, q.Shows watch w calls r' w' →
    ∃ r, ResultRel rel r r' ∧ p.Shows watch w calls r w'

/-- Actions that are alike are so from every world. -/
theorem Alike.from {rel : α → β → Prop} {p : Action C S α} {q : Action C S β}
    (h : Alike watch rel p q) (w : World C S) : AlikeFrom watch w rel p q :=
  ⟨h.shows, fun hq => (h.flip.shows hq).imp fun _ hp => ⟨hp.1.flip, hp.2⟩⟩

/-- After the same beginning it is enough to be alike for the results that the beginning shows. -/
theorem AlikeFrom.after {rel : γ → δ → Prop} {p : Action C S α} {f : α → Action C S γ}
    {g : α → Action C S δ} {w : World C S}
    (h : ∀ calls a w', p.Shows watch w calls (.ok a) w' → Alike watch rel (f a) (g a)) :
    AlikeFrom watch w rel (p >>= f) (p >>= g) := by
  constructor
  · intro calls r w' hshows
    rcases shows_bind_iff.mp hshows with ⟨calls₁, a, w₁, calls₂, hp, hf, rfl⟩ | ⟨e, hp, rfl⟩
    · obtain ⟨r', hr, hg⟩ := (h calls₁ a w₁ hp).shows hf
      exact ⟨r', hr, hp.bind hg⟩
    · exact ⟨_, .error e, shows_bind_iff.mpr (Or.inr ⟨e, hp, rfl⟩)⟩
  · intro calls r w' hshows
    rcases shows_bind_iff.mp hshows with ⟨calls₁, a, w₁, calls₂, hp, hg, rfl⟩ | ⟨e, hp, rfl⟩
    · obtain ⟨r', hr, hf⟩ := (h calls₁ a w₁ hp).flip.shows hg
      exact ⟨r', hr.flip, hp.bind hf⟩
    · exact ⟨_, .error e, shows_bind_iff.mpr (Or.inr ⟨e, hp, rfl⟩)⟩

end Action

end DynamicDispatch
