import DynamicDispatch.Interpreter

/-!
# Running actions

A sequence of actions runs one after the other, and a run that ends at some depth ends in the same
way at every greater one. So "the action yields this result" can be said without a depth, by
`Action.Yields`; the rules below derive it for a composed action from its parts.
-/

namespace DynamicDispatch

variable {C S α β : Type}

/-- What answers requests, as far as it can. -/
abbrev Answering (C S : Type) :=
  (q : Request C) → World C S → Option (Except Error q.Answer × World C S)

namespace Action

/-- A sequence goes on from the result of its first part, and ends with the error of it. -/
theorem run_bind (answer : Answering C S) (p : Action C S α) (f : α → Action C S β)
    (w : World C S) :
    (p >>= f).run answer w =
      match p.run answer w with
      | some (.ok a, w) => (f a).run answer w
      | some (.error e, w) => some (.error e, w)
      | none => none := by
  change (p.bind f).run answer w = _
  induction p generalizing w with
  | done r => cases r <;> rfl
  | ask q next ih =>
    simp only [bind, run]
    cases answer q w with
    | none => rfl
    | some x => exact ih x.1 x.2
  | read next ih => exact ih w w
  | write w' p ih => exact ih w'

/-- A sequence that ends with a result goes on from a result of its first part. -/
theorem exists_of_run_bind {answer : Answering C S} {p : Action C S α} {f : α → Action C S β}
    {w w' : World C S} {b : β} (h : (p >>= f).run answer w = some (.ok b, w')) :
    ∃ a w₁, p.run answer w = some (.ok a, w₁) ∧ (f a).run answer w₁ = some (.ok b, w') := by
  rw [run_bind] at h
  cases hp : p.run answer w with
  | none => simp [hp] at h
  | some x =>
    obtain ⟨e | a, w₁⟩ := x
    · simp [hp] at h
    · rw [hp] at h
      exact ⟨a, w₁, rfl, h⟩

/-- What answers more requests lets a run end that ended before, in the same way. -/
theorem run_mono {less more : Answering C S}
    (h : ∀ q w x, less q w = some x → more q w = some x) (p : Action C S α) (w : World C S)
    (x : Except Error α × World C S) (hp : p.run less w = some x) : p.run more w = some x := by
  induction p generalizing w with
  | done r => exact hp
  | ask q next ih =>
    simp only [run] at hp ⊢
    cases hq : less q w with
    | none => simp [hq] at hp
    | some y =>
      rw [hq] at hp
      rw [h q w y hq]
      exact ih y.1 y.2 hp
  | read next ih => exact ih w w hp
  | write w' p ih => exact ih w' hp

end Action

/-- A program without functions of its own. -/
instance : Embedding Empty Unit := ⟨fun c => nomatch c⟩

section Depth

variable [Embedding C S]

/-- An answer that is there at some depth is the answer at the next one. -/
theorem answer_succ (depth : Nat) (q : Request C) (w : World C S)
    (x : Except Error q.Answer × World C S) (h : answer depth q w = some x) :
    answer (depth + 1) q w = some x := by
  induction depth generalizing q w with
  | zero => simp [answer] at h
  | succ depth ih => exact Action.run_mono ih q.action w x h

/-- An answer that is there at some depth is the answer at every greater one. -/
theorem answer_mono {depth depth' : Nat} (hle : depth ≤ depth') (q : Request C) (w : World C S)
    (x : Except Error q.Answer × World C S) (h : answer depth q w = some x) :
    answer depth' q w = some x := by
  induction hle with
  | refl => exact h
  | step _ ih => exact answer_succ _ q w x ih

namespace Action

/-- A run that ends at some depth ends in the same way at every greater one. -/
theorem runAt_mono {depth depth' : Nat} (hle : depth ≤ depth') (p : Action C S α) (w : World C S)
    (x : Except Error α × World C S) (h : p.runAt depth w = some x) : p.runAt depth' w = some x :=
  run_mono (answer_mono hle) p w x h

/-- From some depth on, an action that is run in `w` ends with a result and leaves a world. -/
def Yields (p : Action C S α) (w : World C S) (r : Except Error α) (w' : World C S) : Prop :=
  ∃ depth, p.runAt depth w = some (r, w')

/-- An action yields at most one result and one world. -/
theorem Yields.unique {p : Action C S α} {w w₁ w₂ : World C S} {r₁ r₂ : Except Error α}
    (h₁ : p.Yields w r₁ w₁) (h₂ : p.Yields w r₂ w₂) : r₁ = r₂ ∧ w₁ = w₂ := by
  obtain ⟨d₁, h₁⟩ := h₁
  obtain ⟨d₂, h₂⟩ := h₂
  have h₁ := runAt_mono (Nat.le_max_left d₁ d₂) p w _ h₁
  have h₂ := runAt_mono (Nat.le_max_right d₁ d₂) p w _ h₂
  simpa using h₁.symm.trans h₂

/-- Actions that end alike yield the same. -/
theorem Yields.congr {p p' : Action C S α} {w w₁ : World C S} {r₁ : Except Error α}
    (hp : p.Yields w r₁ w₁) (hp' : p'.Yields w r₁ w₁) (r : Except Error α) (w' : World C S) :
    p.Yields w r w' ↔ p'.Yields w r w' := by
  constructor
  · intro h
    obtain ⟨hr, hw⟩ := h.unique hp
    rw [hr, hw]
    exact hp'
  · intro h
    obtain ⟨hr, hw⟩ := h.unique hp'
    rw [hr, hw]
    exact hp

/-- An action that has ended yields its result at once. -/
theorem yields_done (r : Except Error α) (w : World C S) : (done r : Action C S α).Yields w r w :=
  ⟨0, rfl⟩

/-- A result that is there is yielded at once. -/
theorem yields_pure (a : α) (w : World C S) : (pure a : Action C S α).Yields w (.ok a) w :=
  ⟨0, rfl⟩

/-- A sequence yields what comes after the result of its first part. -/
theorem Yields.bind {p : Action C S α} {f : α → Action C S β} {w w₁ w₂ : World C S} {a : α}
    {r : Except Error β} (hp : p.Yields w (.ok a) w₁) (hf : (f a).Yields w₁ r w₂) :
    (p >>= f).Yields w r w₂ := by
  obtain ⟨d₁, hp⟩ := hp
  obtain ⟨d₂, hf⟩ := hf
  refine ⟨max d₁ d₂, ?_⟩
  have hp := runAt_mono (Nat.le_max_left d₁ d₂) p w _ hp
  have hf := runAt_mono (Nat.le_max_right d₁ d₂) (f a) w₁ _ hf
  unfold runAt at hp hf ⊢
  rw [run_bind, hp]
  exact hf

/-- Where the first part of a sequence ends, the sequence yields what comes after it, and nothing
else. -/
theorem Yields.bind_iff {p : Action C S α} {f : α → Action C S β} {w w₁ w₂ : World C S} {a : α}
    {r : Except Error β} (hp : p.Yields w (.ok a) w₁) :
    (p >>= f).Yields w r w₂ ↔ (f a).Yields w₁ r w₂ := by
  refine ⟨fun h => ?_, hp.bind⟩
  obtain ⟨d₁, hp⟩ := hp
  obtain ⟨d₂, h⟩ := h
  refine ⟨max d₁ d₂, ?_⟩
  have hp := runAt_mono (Nat.le_max_left d₁ d₂) p w _ hp
  have h := runAt_mono (Nat.le_max_right d₁ d₂) (p >>= f) w _ h
  unfold runAt at hp h ⊢
  rw [run_bind, hp] at h
  exact h

/-- What reads the world goes on from the one it is run in. -/
theorem yields_world_bind {f : World C S → Action C S α} {w w' : World C S} {r : Except Error α}
    (h : (f w).Yields w r w') : (world >>= f).Yields w r w' :=
  Yields.bind ⟨0, rfl⟩ h

/-- A request is answered by what the action it stands for yields. -/
theorem Yields.request {q : Request C} {w w' : World C S} {r : Except Error q.Answer}
    (h : q.action.Yields w r w') : (Action.request q).Yields w r w' := by
  obtain ⟨depth, h⟩ := h
  refine ⟨depth + 1, ?_⟩
  have h : answer (depth + 1) q w = some (r, w') := h
  simp only [runAt, Action.request, run, h]

/-- A call yields what the body of the function yields. -/
theorem Yields.call {f : Func C} {args : List (Value C)} {w w' : World C S}
    {r : Except Error (Value C)} (h : (f.body args).Yields w r w') :
    (call f args).Yields w r w' :=
  Yields.request (q := .call f args) h

end Action

end Depth

end DynamicDispatch
