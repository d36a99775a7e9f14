import DynamicDispatch.Proofs.Action.Run

/-!
# Watching the calls of an action

One who watches some functions sees the calls of them that an action leads to, at every depth, in
order and with their results, but not what happens inside such a call. The observation stands beside
the run and changes nothing. `Action.Shows` says, without a depth, what is seen of an action; the rules
below derive it for a composed action from its parts.
-/

namespace DynamicDispatch

variable {C S α β : Type}

/-- A call that was seen, with its result. -/
structure SeenCall (C : Type) where
  callee : Func C
  args : List (Value C)
  result : Except Error (Value C)

/-- What is seen of an action that ends: calls in order, its result and the world that it leaves. -/
structure Sight (C S α : Type) where
  calls : List (SeenCall C)
  result : Except Error α
  world : World C S

/-- What is seen when some calls have been seen before. -/
def Sight.after (earlier : List (SeenCall C)) (s : Sight C S α) : Sight C S α :=
  { s with calls := earlier ++ s.calls }

/-- What is seen of the answers to requests, as far as there are answers. -/
abbrev Observing (C S : Type) := (q : Request C) → World C S → Option (Sight C S q.Answer)

/-- What is seen of a request, given what would be seen of the action it stands for: the call alone,
when the function is watched. -/
def Request.sight (watch : Func C → Bool) : (q : Request C) → Sight C S q.Answer →
    Sight C S q.Answer
  | .call f args, s => if watch f then { s with calls := [⟨f, args, s.result⟩] } else s
  | .deepEqual _ _, s => s
  | .evolve _ _, s => s
  | .poll _, s => s
  | .drive _, s => s

/-- Watching changes neither the result nor the world. -/
theorem Request.sight_result_world (watch : Func C → Bool) (q : Request C)
    (s : Sight C S q.Answer) :
    (q.sight watch s).result = s.result ∧ (q.sight watch s).world = s.world := by
  cases q with
  | call f args =>
    by_cases hwatch : watch f = true
    · simp only [Request.sight, if_pos hwatch, and_self]
    · simp only [Request.sight, if_neg hwatch, and_self]
  | _ => exact ⟨rfl, rfl⟩

namespace Action

/-- Runs an action and lists the calls that are seen. -/
def observe (seen : Observing C S) : Action C S α → World C S → Option (Sight C S α)
  | .done r, w => some ⟨[], r, w⟩
  | .ask q next, w =>
    match seen q w with
    | some s => ((next s.result).observe seen s.world).map (Sight.after s.calls)
    | none => none
  | .read next, w => (next w).observe seen w
  | .write w p, _ => p.observe seen w

/-- A sequence is observed part by part; an error of the first part ends it. -/
theorem observe_bind (seen : Observing C S) (p : Action C S α) (f : α → Action C S β)
    (w : World C S) :
    (p >>= f).observe seen w =
      match p.observe seen w with
      | some ⟨calls, .ok a, w⟩ => ((f a).observe seen w).map (Sight.after calls)
      | some ⟨calls, .error e, w⟩ => some ⟨calls, .error e, w⟩
      | none => none := by
  change (p.bind f).observe seen w = _
  induction p generalizing w with
  | done r =>
    cases r with
    | ok a => exact (Option.map_id_apply).symm
    | error e => rfl
  | ask q next ih =>
    simp only [bind, observe]
    cases seen q w with
    | none => rfl
    | some s =>
      simp only [ih s.result s.world]
      cases (next s.result).observe seen s.world with
      | none => rfl
      | some t =>
        obtain ⟨calls, result, after⟩ := t
        cases result with
        | error e => rfl
        | ok a =>
          simp only [Option.map_some, Option.map_map, Sight.after]
          congr 1
          funext u
          simp [Sight.after]
  | read next ih => exact ih w w
  | write w' p ih => exact ih w'

/-- The result as a value is observed as the action itself. -/
theorem observe_attempt (seen : Observing C S) (p : Action C S α) (w : World C S) :
    p.attempt.observe seen w =
      (p.observe seen w).map fun s => ⟨s.calls, .ok s.result, s.world⟩ := by
  induction p generalizing w with
  | done r => rfl
  | ask q next ih =>
    simp only [attempt, observe]
    cases seen q w with
    | none => rfl
    | some s =>
      simp only [ih s.result s.world, Option.map_map]
      rfl
  | read next ih => exact ih w w
  | write w' p ih => exact ih w'

/-- The result of a sequence as a value is that of its second part, or the error of the first. -/
theorem attempt_bind (p : Action C S α) (f : α → Action C S β) :
    (p >>= f).attempt = p.attempt >>= fun
      | .ok a => (f a).attempt
      | .error e => pure (.error e) := by
  change (p.bind f).attempt = p.attempt.bind _
  induction p with
  | done r => cases r <;> rfl
  | ask q next ih => simp only [bind, attempt, ih]
  | read next ih => simp only [bind, attempt, ih]
  | write w p ih => simp only [bind, attempt, ih]

/-- What lets more requests be seen lets the same be seen of an action that ended before. -/
theorem observe_mono {less more : Observing C S}
    (h : ∀ q w s, less q w = some s → more q w = some s) (p : Action C S α) (w : World C S)
    (s : Sight C S α) (hp : p.observe less w = some s) : p.observe more w = some s := by
  induction p generalizing w s with
  | done r => exact hp
  | ask q next ih =>
    simp only [observe] at hp ⊢
    cases hq : less q w with
    | none => simp [hq] at hp
    | some t =>
      rw [hq] at hp
      rw [h q w t hq]
      obtain ⟨u, hu, rfl⟩ := Option.map_eq_some_iff.mp hp
      simp only [ih t.result t.world u hu, Option.map_some]
  | read next ih => exact ih w w s hp
  | write w' p ih => exact ih w' s hp

/-- A run is what is observed without the calls, when this holds of every answer. -/
theorem run_eq_observe {answer : Answering C S} {seen : Observing C S}
    (h : ∀ q w, answer q w = (seen q w).map fun s => (s.result, s.world)) (p : Action C S α)
    (w : World C S) :
    p.run answer w = (p.observe seen w).map fun s => (s.result, s.world) := by
  induction p generalizing w with
  | done r => rfl
  | ask q next ih =>
    simp only [run, observe, h q w]
    cases seen q w with
    | none => rfl
    | some s => simp [ih s.result s.world, Option.map_map, Function.comp_def, Sight.after]
  | read next ih => exact ih w w
  | write w' p ih => exact ih w'

end Action

section Depth

variable [Embedding C S]

/-- What is seen of the answer to a request, computed to a depth. -/
def observed (watch : Func C → Bool) : (depth : Nat) → Observing C S
  | 0, _, _ => none
  | depth + 1, q, w => (q.action.observe (observed watch depth) w).map (q.sight watch)

/-- What is seen at some depth is seen at the next one. -/
theorem observed_succ (watch : Func C → Bool) (depth : Nat) (q : Request C) (w : World C S)
    (s : Sight C S q.Answer) (h : observed watch depth q w = some s) :
    observed watch (depth + 1) q w = some s := by
  induction depth generalizing q w s with
  | zero => simp [observed] at h
  | succ depth ih =>
    obtain ⟨t, ht, rfl⟩ := Option.map_eq_some_iff.mp h
    change (q.action.observe (observed watch (depth + 1)) w).map _ = _
    rw [Action.observe_mono ih q.action w t ht, Option.map_some]

/-- What is seen at some depth is seen at every greater one. -/
theorem observed_mono (watch : Func C → Bool) {depth depth' : Nat} (hle : depth ≤ depth')
    (q : Request C) (w : World C S) (s : Sight C S q.Answer)
    (h : observed watch depth q w = some s) : observed watch depth' q w = some s := by
  induction hle with
  | refl => exact h
  | step _ ih => exact observed_succ watch _ q w s ih

/-- An answer is what is seen of it without the calls. -/
theorem answer_eq_observed (watch : Func C → Bool) (depth : Nat) (q : Request C) (w : World C S) :
    answer depth q w = (observed watch depth q w).map fun s => (s.result, s.world) := by
  induction depth generalizing q w with
  | zero => rfl
  | succ depth ih =>
    change q.action.run (answer depth) w =
      ((q.action.observe (observed watch depth) w).map (q.sight watch)).map _
    rw [Action.run_eq_observe ih, Option.map_map]
    congr 1
    funext s
    obtain ⟨hresult, hworld⟩ := q.sight_result_world watch s
    simp only [Function.comp_apply, hresult, hworld]

namespace Action

/-- From some depth on, one who watches sees these calls of an action that is run in `w`, the result
that it ends with and the world that it leaves. -/
def Shows (watch : Func C → Bool) (p : Action C S α) (w : World C S) (calls : List (SeenCall C))
    (r : Except Error α) (w' : World C S) : Prop :=
  ∃ depth, p.observe (observed watch depth) w = some ⟨calls, r, w'⟩

variable {watch : Func C → Bool} {w w' w₁ w₂ : World C S} {calls calls₁ calls₂ : List (SeenCall C)}

/-- What is seen at some depth is seen from there on. -/
theorem observe_observed_mono {depth depth' : Nat} (hle : depth ≤ depth') {p : Action C S α}
    {s : Sight C S α} (h : p.observe (observed watch depth) w = some s) :
    p.observe (observed watch depth') w = some s :=
  observe_mono (observed_mono watch hle) p w s h

/-- One thing at most is seen of an action. -/
theorem Shows.unique {p : Action C S α} {r₁ r₂ : Except Error α}
    (h₁ : p.Shows watch w calls₁ r₁ w₁) (h₂ : p.Shows watch w calls₂ r₂ w₂) :
    calls₁ = calls₂ ∧ r₁ = r₂ ∧ w₁ = w₂ := by
  obtain ⟨d₁, h₁⟩ := h₁
  obtain ⟨d₂, h₂⟩ := h₂
  have h₁ := observe_observed_mono (Nat.le_max_left d₁ d₂) h₁
  have h₂ := observe_observed_mono (Nat.le_max_right d₁ d₂) h₂
  simpa using h₁.symm.trans h₂

/-- What an action yields is what is seen of it without the calls, whoever watches. -/
theorem yields_iff_shows (watch : Func C → Bool) {p : Action C S α} {r : Except Error α} :
    p.Yields w r w' ↔ ∃ calls, p.Shows watch w calls r w' := by
  have hrun : ∀ depth, p.runAt depth w =
      (p.observe (observed watch depth) w).map fun s => (s.result, s.world) :=
    fun depth => run_eq_observe (answer_eq_observed watch depth) p w
  constructor
  · rintro ⟨depth, h⟩
    rw [hrun] at h
    obtain ⟨⟨calls, r', w''⟩, hs, heq⟩ := Option.map_eq_some_iff.mp h
    obtain ⟨rfl, rfl⟩ : r' = r ∧ w'' = w' := by simpa using heq
    exact ⟨calls, depth, hs⟩
  · rintro ⟨calls, depth, h⟩
    exact ⟨depth, by rw [hrun, h]; rfl⟩

/-- What is seen of an action, it yields. -/
theorem Shows.yields {p : Action C S α} {r : Except Error α} (h : p.Shows watch w calls r w') :
    p.Yields w r w' :=
  (yields_iff_shows watch).mpr ⟨calls, h⟩

/-- An action that has ended shows its result at once. -/
theorem shows_done_iff {r r' : Except Error α} :
    (done r : Action C S α).Shows watch w calls r' w' ↔ calls = [] ∧ r' = r ∧ w' = w := by
  constructor
  · rintro ⟨depth, h⟩
    obtain ⟨rfl, rfl, rfl⟩ : [] = calls ∧ r = r' ∧ w = w' := by simpa [observe] using h
    exact ⟨rfl, rfl, rfl⟩
  · rintro ⟨rfl, rfl, rfl⟩
    exact ⟨0, rfl⟩

/-- A result that is there is shown at once. -/
theorem shows_pure_iff {a : α} {r : Except Error α} :
    (pure a : Action C S α).Shows watch w calls r w' ↔ calls = [] ∧ r = .ok a ∧ w' = w :=
  shows_done_iff

/-- It is shown without a call, and the world is as it was. -/
theorem shows_pure (a : α) (w : World C S) : (pure a : Action C S α).Shows watch w [] (.ok a) w :=
  shows_pure_iff.mpr ⟨rfl, rfl, rfl⟩

/-- A sequence shows what its first part shows and then what comes after its result, or the error of
its first part. -/
theorem shows_bind_iff {p : Action C S α} {f : α → Action C S β} {r : Except Error β} :
    (p >>= f).Shows watch w calls r w' ↔
      (∃ calls₁ a w₁ calls₂, p.Shows watch w calls₁ (.ok a) w₁ ∧
        (f a).Shows watch w₁ calls₂ r w' ∧ calls = calls₁ ++ calls₂) ∨
      (∃ e, p.Shows watch w calls (.error e) w' ∧ r = .error e) := by
  constructor
  · rintro ⟨depth, h⟩
    rw [observe_bind] at h
    cases hp : p.observe (observed watch depth) w with
    | none => simp [hp] at h
    | some s =>
      obtain ⟨calls₁, result, w₁⟩ := s
      rw [hp] at h
      cases result with
      | error e =>
        obtain ⟨rfl, rfl, rfl⟩ : calls₁ = calls ∧ .error e = r ∧ w₁ = w' := by simpa using h
        exact Or.inr ⟨e, ⟨depth, hp⟩, rfl⟩
      | ok a =>
        obtain ⟨⟨calls₂, r', w''⟩, hf, heq⟩ := Option.map_eq_some_iff.mp h
        obtain ⟨rfl, rfl, rfl⟩ : calls₁ ++ calls₂ = calls ∧ r' = r ∧ w'' = w' := by
          simpa [Sight.after] using heq
        exact Or.inl ⟨calls₁, a, w₁, calls₂, ⟨depth, hp⟩, ⟨depth, hf⟩, rfl⟩
  · rintro (⟨calls₁, a, w₁, calls₂, ⟨d₁, hp⟩, ⟨d₂, hf⟩, rfl⟩ | ⟨e, ⟨depth, hp⟩, rfl⟩)
    · refine ⟨max d₁ d₂, ?_⟩
      rw [observe_bind, observe_observed_mono (Nat.le_max_left d₁ d₂) hp]
      simp only [observe_observed_mono (Nat.le_max_right d₁ d₂) hf, Option.map_some]
      rfl
    · exact ⟨depth, by rw [observe_bind, hp]⟩

/-- A sequence shows what its parts show. -/
theorem Shows.bind {p : Action C S α} {f : α → Action C S β} {a : α} {r : Except Error β}
    (hp : p.Shows watch w calls₁ (.ok a) w₁) (hf : (f a).Shows watch w₁ calls₂ r w') :
    (p >>= f).Shows watch w (calls₁ ++ calls₂) r w' :=
  shows_bind_iff.mpr (Or.inl ⟨calls₁, a, w₁, calls₂, hp, hf, rfl⟩)

/-- Where the first part of a sequence shows no call, the sequence shows what comes after it. -/
theorem Shows.bind_iff {p : Action C S α} {f : α → Action C S β} {a : α} {r : Except Error β}
    (hp : p.Shows watch w [] (.ok a) w₁) :
    (p >>= f).Shows watch w calls r w' ↔ (f a).Shows watch w₁ calls r w' := by
  constructor
  · intro h
    rcases shows_bind_iff.mp h with ⟨calls₁, b, w₂, calls₂, hp', hf, rfl⟩ | ⟨e, hp', -⟩
    · obtain ⟨rfl, hb, rfl⟩ := hp.unique hp'
      obtain rfl := Except.ok.inj hb
      exact hf
    · obtain ⟨-, he, -⟩ := hp.unique hp'
      cases he
  · exact fun hf => hp.bind hf

/-- An action whose result is changed at the end shows what it shows without that. -/
theorem shows_bind_pure_iff {p : Action C S α} {g : α → β} {r : Except Error β} :
    (p >>= fun a => pure (g a)).Shows watch w calls r w' ↔
      ∃ r', p.Shows watch w calls r' w' ∧ r = r'.map g := by
  rw [shows_bind_iff]
  constructor
  · rintro (⟨calls₁, a, w₁, calls₂, hp, hpure, rfl⟩ | ⟨e, hp, rfl⟩)
    · obtain ⟨rfl, rfl, rfl⟩ := shows_pure_iff.mp hpure
      rw [List.append_nil]
      exact ⟨.ok a, hp, rfl⟩
    · exact ⟨.error e, hp, rfl⟩
  · rintro ⟨r', hp, rfl⟩
    cases r' with
    | ok a =>
      exact Or.inl ⟨calls, a, w', [], hp, shows_pure _ _, (List.append_nil calls).symm⟩
    | error e => exact Or.inr ⟨e, hp, rfl⟩

/-- The result of an action as a value. -/
theorem shows_attempt_iff {p : Action C S α} {r : Except Error (Except Error α)} :
    p.attempt.Shows watch w calls r w' ↔ ∃ r', r = .ok r' ∧ p.Shows watch w calls r' w' := by
  unfold Shows
  simp only [observe_attempt]
  constructor
  · rintro ⟨depth, h⟩
    obtain ⟨⟨calls', r', w''⟩, hs, heq⟩ := Option.map_eq_some_iff.mp h
    obtain ⟨rfl, rfl, rfl⟩ : calls' = calls ∧ .ok r' = r ∧ w'' = w' := by simpa using heq
    exact ⟨r', rfl, depth, hs⟩
  · rintro ⟨r', rfl, depth, hs⟩
    exact ⟨depth, by rw [hs]; rfl⟩

/-- A request is observed as the action it stands for, one depth less. -/
theorem observe_request (watch : Func C → Bool) (depth : Nat) (q : Request C) (w : World C S) :
    (Action.request q).observe (observed watch (depth + 1)) w =
      (q.action.observe (observed watch depth) w).map (q.sight watch) := by
  simp only [Action.request, observe, observed]
  cases q.action.observe (observed watch depth) w with
  | none => rfl
  | some s => simp [Sight.after]

/-- A request shows what the action it stands for shows, as one who watches sees it. -/
theorem shows_request_iff {q : Request C} {r : Except Error q.Answer} :
    (Action.request q).Shows watch w calls r w' ↔
      ∃ inside, q.action.Shows watch w inside r w' ∧
        calls = (q.sight watch ⟨inside, r, w'⟩).calls := by
  constructor
  · rintro ⟨depth, h⟩
    cases depth with
    | zero => cases h
    | succ depth =>
      rw [observe_request] at h
      obtain ⟨⟨inside, r', w''⟩, ht, heq⟩ := Option.map_eq_some_iff.mp h
      obtain ⟨hresult, hworld⟩ := q.sight_result_world watch ⟨inside, r', w''⟩
      rw [heq] at hresult hworld
      obtain ⟨rfl, rfl⟩ : r = r' ∧ w' = w'' := ⟨hresult, hworld⟩
      exact ⟨inside, ⟨depth, ht⟩, by rw [heq]⟩
  · rintro ⟨inside, ⟨depth, ht⟩, rfl⟩
    refine ⟨depth + 1, ?_⟩
    rw [observe_request, ht, Option.map_some]
    obtain ⟨hresult, hworld⟩ := q.sight_result_world watch ⟨inside, r, w'⟩
    cases hs : q.sight watch ⟨inside, r, w'⟩ with
    | mk calls' r' w'' =>
      rw [hs] at hresult hworld
      simp only at hresult hworld
      rw [hresult, hworld]

/-- Of a call of a watched function that call alone is seen. -/
theorem Shows.calls_eq_of_watched {f : Func C} (hf : watch f = true) {args : List (Value C)}
    {r : Except Error (Value C)} (h : (DynamicDispatch.call f args).Shows watch w calls r w') :
    calls = [⟨f, args, r⟩] := by
  obtain ⟨inside, -, rfl⟩ := shows_request_iff.mp h
  rw [Request.sight, if_pos hf]

/-- What a call yields is what the function does. -/
theorem Yields.of_call {f : Func C} {args : List (Value C)} {r : Except Error (Value C)}
    (h : (DynamicDispatch.call f args).Yields w r w') : (f.body args).Yields w r w' := by
  obtain ⟨calls, hshows⟩ := (yields_iff_shows fun _ => false).mp h
  obtain ⟨inside, hinside, -⟩ := shows_request_iff.mp hshows
  exact hinside.yields

end Action

end Depth

end DynamicDispatch
