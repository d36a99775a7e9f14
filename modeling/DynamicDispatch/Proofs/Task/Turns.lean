import DynamicDispatch.Proofs.Action.Simulation

/-!
# The scheduler turn by turn

Driving a schedule gives one turn after the other, until nothing gets any further. Here one turn is an
action of its own, and what is seen of driving is a chain of such turns. What one turn keeps is kept by the
whole, by induction on the chain.
-/

namespace DynamicDispatch

open DynamicDispatch.Action (observe observe_bind observe_request request shows_bind_iff
  shows_bind_pure_iff shows_pure shows_pure_iff shows_request_iff world)

variable {C S : Type}

namespace Schedule

/-- The turn of the main run, if it has not settled: what is left of it and the children that were
started. -/
def mainTurn (main : Turn C) : Action C S (Turn C × List (Child C)) := do
  let main ← match main with
    | .settled outcome => pure (.settled outcome)
    | .pending run => run.poll
  return (main, ← takeStarted)

/-- The turn of a child: what is left of it, if it has not settled and reported, and the children that
were started. -/
def childTurn (child : Child C) : Action C S (Option (Child C) × List (Child C)) := do
  match ← child.run.poll with
  | .settled outcome => do
    report child outcome
    return (none, ← takeStarted)
  | .pending run => return (some { child with run }, ← takeStarted)

/-- One turn: the schedule that is left or, when nothing gets any further, the outcome of the main run. -/
def step (s : Schedule C) : Action C S (Option (Outcome (Value C)) ⊕ Schedule C) :=
  match s.waiting with
  | child :: waiting => do
    let (left, started) ← childTurn child
    return .inr ⟨s.main, waiting ++ started, s.turned ++ left.toList⟩
  | [] => do
    if s.canAdvance (← world) then
      let (main, started) ← mainTurn s.main
      return .inr ⟨main, s.turned ++ started, []⟩
    else return .inl s.main.outcome?

/-- How driving goes on after a turn. -/
def goOn : Option (Outcome (Value C)) ⊕ Schedule C → Action C S (Option (Outcome (Value C)))
  | .inl o => return o
  | .inr s => request (.drive s)

/-- Driving a schedule is giving a turn and driving what is left. -/
theorem drive_eq (s : Schedule C) :
    (s.drive : Action C S (Option (Outcome (Value C)))) = s.step >>= goOn := by
  obtain ⟨main, waiting, turned⟩ := s
  cases waiting with
  | cons child waiting =>
    simp only [drive, step, childTurn, bind_assoc]
    refine bind_congr fun turn => ?_
    cases turn with
    | settled o =>
      simp only [bind_assoc, pure_bind, goOn, Option.toList_none]
      refine bind_congr fun _ => bind_congr fun started => ?_
      exact congrArg (fun rest => goOn (S := S) (.inr ⟨main, waiting ++ started, rest⟩))
        (List.append_nil turned).symm
    | pending run => simp only [bind_assoc, pure_bind, goOn, Option.toList_some]
  | nil =>
    simp only [drive, step, mainTurn, bind_assoc]
    refine bind_congr fun w => ?_
    split
    · cases main <;> simp only [bind_assoc, pure_bind, goOn]
    · rfl

variable [Embedding C S] {watch : Func C → Bool}

/-- What goes on from the world goes on from the one that it is run in. -/
theorem shows_world_bind_iff {α : Type} {f : World C S → Action C S α} {w w' : World C S}
    {calls : List (SeenCall C)} {r : Except Error α} :
    (world >>= f).Shows watch w calls r w' ↔ (f w).Shows watch w calls r w' :=
  Iff.rfl

/-- The started children are taken over without anything being seen. -/
theorem shows_takeStarted_iff {w w' : World C S} {calls : List (SeenCall C)}
    {r : Except Error (List (Child C))} :
    takeStarted.Shows watch w calls r w' ↔
      calls = [] ∧ r = .ok w.started ∧ w' = { w with started := [] } := by
  have hpure : (pure w.started : Action C S (List (Child C))).Shows watch { w with started := [] }
      calls r w' ↔ _ := shows_pure_iff
  exact hpure

/-- What is seen of a turn of the main run is seen of giving it its turn. -/
theorem shows_mainTurn_iff {run : Run C} {w w' : World C S} {calls : List (SeenCall C)}
    {r : Except Error (Turn C × List (Child C))} :
    (mainTurn (.pending run)).Shows watch w calls r w' ↔
      (∃ t w₁, run.poll.Shows watch w calls (.ok t) w₁ ∧ r = .ok (t, w₁.started) ∧
        w' = { w₁ with started := [] }) ∨
      ∃ e, run.poll.Shows watch w calls (.error e) w' ∧ r = .error e := by
  have htake : ∀ (t : Turn C) (w₁ : World C S) calls r,
      (do return (t, ← takeStarted)).Shows watch w₁ calls r w' ↔
        calls = [] ∧ r = .ok (t, w₁.started) ∧ w' = { w₁ with started := [] } := by
    intro t w₁ calls r
    have hpure : (pure (t, w₁.started) : Action C S (Turn C × List (Child C))).Shows watch
        { w₁ with started := [] } calls r w' ↔ _ := shows_pure_iff
    exact hpure
  change (run.poll >>= fun t => do return (t, ← takeStarted)).Shows watch w calls r w' ↔ _
  rw [shows_bind_iff]
  refine or_congr ⟨?_, ?_⟩ Iff.rfl
  · rintro ⟨calls₁, t, w₁, calls₂, hpoll, hrest, rfl⟩
    obtain ⟨rfl, hr, hw⟩ := (htake t w₁ calls₂ r).mp hrest
    rw [List.append_nil]
    exact ⟨t, w₁, hpoll, hr, hw⟩
  · rintro ⟨t, w₁, hpoll, hr, hw⟩
    exact ⟨calls, t, w₁, [], hpoll, (htake t w₁ [] r).mpr ⟨rfl, hr, hw⟩, (List.append_nil _).symm⟩

/-- A settled main run stays settled. -/
theorem shows_mainTurn_settled_iff {o : Outcome (Value C)} {w w' : World C S}
    {calls : List (SeenCall C)} {r : Except Error (Turn C × List (Child C))} :
    (mainTurn (.settled o)).Shows watch w calls r w' ↔
      calls = [] ∧ r = .ok (.settled o, w.started) ∧ w' = { w with started := [] } := by
  have hpure : (pure (.settled o, w.started) : Action C S (Turn C × List (Child C))).Shows watch
      { w with started := [] } calls r w' ↔ _ := shows_pure_iff
  exact hpure

/-- A child takes its turn. -/
theorem shows_step_cons_iff {main : Turn C} {child : Child C} {waiting turned : List (Child C)}
    {w w' : World C S} {calls : List (SeenCall C)}
    {r : Except Error (Option (Outcome (Value C)) ⊕ Schedule C)} :
    (step ⟨main, child :: waiting, turned⟩).Shows watch w calls r w' ↔
      ∃ r', (childTurn child).Shows watch w calls r' w' ∧
        r = r'.map fun x => .inr ⟨main, waiting ++ x.2, turned ++ x.1.toList⟩ :=
  shows_bind_pure_iff

/-- A lap begins with the turn of the main run, where something gets further. -/
theorem shows_step_nil_iff {main : Turn C} {turned : List (Child C)} {w w' : World C S}
    {calls : List (SeenCall C)} {r : Except Error (Option (Outcome (Value C)) ⊕ Schedule C)}
    (hadvance : canAdvance w ⟨main, [], turned⟩ = true) :
    (step ⟨main, [], turned⟩).Shows watch w calls r w' ↔
      ∃ r', (mainTurn main).Shows watch w calls r' w' ∧
        r = r'.map fun x => .inr ⟨x.1, turned ++ x.2, []⟩ := by
  rw [step, shows_world_bind_iff, if_pos hadvance]
  exact shows_bind_pure_iff

/-- Where nothing gets further, driving is over. -/
theorem shows_step_nil_over_iff {main : Turn C} {turned : List (Child C)} {w w' : World C S}
    {calls : List (SeenCall C)} {r : Except Error (Option (Outcome (Value C)) ⊕ Schedule C)}
    (hadvance : canAdvance w ⟨main, [], turned⟩ = false) :
    (step ⟨main, [], turned⟩).Shows watch w calls r w' ↔
      calls = [] ∧ r = .ok (.inl main.outcome?) ∧ w' = w := by
  rw [step, shows_world_bind_iff, hadvance, if_neg Bool.false_ne_true]
  exact shows_pure_iff

/-- A turn that leaves a schedule is a child's turn, or the main run's, where something gets further. -/
theorem shows_step_next_iff {s s' : Schedule C} {w w' : World C S} {calls : List (SeenCall C)} :
    s.step.Shows watch w calls (.ok (.inr s')) w' ↔
      (∃ child waiting left started, s.waiting = child :: waiting ∧
        (childTurn child).Shows watch w calls (.ok (left, started)) w' ∧
        s' = ⟨s.main, waiting ++ started, s.turned ++ left.toList⟩) ∨
      (s.waiting = [] ∧ canAdvance w s = true ∧ ∃ main started,
        (mainTurn s.main).Shows watch w calls (.ok (main, started)) w' ∧
        s' = ⟨main, s.turned ++ started, []⟩) := by
  obtain ⟨main, _ | ⟨child, waiting⟩, turned⟩ := s
  · cases hadvance : canAdvance w ⟨main, [], turned⟩ with
    | false => simp [shows_step_nil_over_iff hadvance]
    | true =>
      rw [shows_step_nil_iff hadvance]
      constructor
      · rintro ⟨e | ⟨t, started⟩, hturn, hr⟩
        · cases hr
        · cases hr
          exact Or.inr ⟨rfl, rfl, t, started, hturn, rfl⟩
      · rintro (⟨_, _, _, _, h, -⟩ | ⟨-, -, t, started, hturn, rfl⟩)
        · cases h
        · exact ⟨_, hturn, rfl⟩
  · rw [shows_step_cons_iff]
    constructor
    · rintro ⟨e | ⟨left, started⟩, hturn, hr⟩
      · cases hr
      · cases hr
        exact Or.inl ⟨child, waiting, left, started, rfl, hturn, rfl⟩
    · rintro (⟨_, _, left, started, h, hturn, rfl⟩ | ⟨h, -⟩)
      · cases h
        exact ⟨_, hturn, rfl⟩
      · cases h

/-- A lap that begins with the turn of a pending run. -/
theorem shows_step_of_poll {run : Run C} {turned : List (Child C)} {w w' : World C S}
    {calls : List (SeenCall C)} {t : Turn C}
    (hadvance : canAdvance w ⟨.pending run, [], turned⟩ = true)
    (hpoll : run.poll.Shows watch w calls (.ok t) w') :
    (step ⟨.pending run, [], turned⟩).Shows watch w calls
      (.ok (.inr ⟨t, turned ++ w'.started, []⟩)) { w' with started := [] } :=
  (shows_step_nil_iff hadvance).mpr ⟨_, shows_mainTurn_iff.mpr (Or.inl ⟨t, w', hpoll, rfl, rfl⟩), rfl⟩

/-- A chain of turns that comes to an end, with the calls that are seen. -/
inductive Runs (watch : Func C → Bool) : Schedule C → World C S → List (SeenCall C) →
    Except Error (Option (Outcome (Value C))) → World C S → Prop
  | ended {s : Schedule C} {w w' : World C S} {calls : List (SeenCall C)}
      {o : Option (Outcome (Value C))} (h : s.step.Shows watch w calls (.ok (.inl o)) w') :
      Runs watch s w calls (.ok o) w'
  | fails {s : Schedule C} {w w' : World C S} {calls : List (SeenCall C)} {e : Error}
      (h : s.step.Shows watch w calls (.error e) w') : Runs watch s w calls (.error e) w'
  | turn {s s' : Schedule C} {w w₁ w' : World C S} {calls later : List (SeenCall C)}
      {r : Except Error (Option (Outcome (Value C)))}
      (h : s.step.Shows watch w calls (.ok (.inr s')) w₁) (rest : Runs watch s' w₁ later r w') :
      Runs watch s w (calls ++ later) r w'

/-- What is seen of driving a schedule is such a chain. -/
theorem shows_drive_iff {s : Schedule C} {w w' : World C S} {calls : List (SeenCall C)}
    {r : Except Error (Option (Outcome (Value C)))} :
    s.drive.Shows watch w calls r w' ↔ Runs watch s w calls r w' := by
  constructor
  · rintro ⟨depth, h⟩
    induction depth using Nat.strongRecOn generalizing s w calls with
    | ind depth ih =>
      rw [drive_eq, observe_bind] at h
      cases hstep : (s.step (S := S)).observe (observed watch depth) w with
      | none => simp [hstep] at h
      | some sight =>
        obtain ⟨calls₁, result, w₁⟩ := sight
        rw [hstep] at h
        rcases result with e | o | s'
        · obtain ⟨rfl, rfl, rfl⟩ : calls₁ = calls ∧ .error e = r ∧ w₁ = w' := by simpa using h
          exact .fails ⟨depth, hstep⟩
        · obtain ⟨rfl, rfl, rfl⟩ : calls₁ = calls ∧ .ok o = r ∧ w₁ = w' := by
            simpa [goOn, observe, Pure.pure, Action.ok, Sight.after] using h
          exact .ended ⟨depth, hstep⟩
        · obtain ⟨⟨later, r', w''⟩, hlater, heq⟩ := Option.map_eq_some_iff.mp h
          obtain ⟨rfl, rfl, rfl⟩ : calls₁ ++ later = calls ∧ r' = r ∧ w'' = w' := by
            simpa [Sight.after] using heq
          -- Driving what is left is one request deeper, so that the induction applies.
          cases depth with
          | zero => cases hlater
          | succ depth =>
            simp only [goOn] at hlater
            rw [observe_request] at hlater
            obtain ⟨t, ht, rfl⟩ := Option.map_eq_some_iff.mp hlater
            exact .turn ⟨depth + 1, hstep⟩ (ih depth (Nat.lt_succ_self depth) ht)
  · intro h
    induction h with
    | ended h =>
      rw [drive_eq]
      have hend := h.bind (f := goOn) (shows_pure _ _)
      rwa [List.append_nil] at hend
    | fails h =>
      rw [drive_eq]
      exact shows_bind_iff.mpr (Or.inr ⟨_, h, rfl⟩)
    | turn h _ ih =>
      rw [drive_eq]
      exact h.bind (shows_request_iff.mpr ⟨_, ih, rfl⟩)

/-- Running a task is starting it and then giving it turns. -/
theorem shows_run_iff {t : Recipe C} {w w' : World C S} {calls : List (SeenCall C)}
    {r : Except Error (Option (Outcome (Value C)))} :
    t.run.Shows watch w calls r w' ↔
      (∃ calls₁ run w₁ later, t.start.Shows watch w calls₁ (.ok run) w₁ ∧
        Runs watch (.ofRun run) w₁ later r w' ∧ calls = calls₁ ++ later) ∨
      (∃ e, t.start.Shows watch w calls (.error e) w' ∧ r = .error e) := by
  have hdrive : ∀ (run : Run C) (w₁ : World C S) later,
      (request (.drive (.ofRun run))).Shows watch w₁ later r w' ↔
        Runs watch (.ofRun run) w₁ later r w' := by
    intro run w₁ later
    rw [← shows_drive_iff, shows_request_iff]
    exact ⟨fun ⟨_, h, heq⟩ => heq ▸ h, fun h => ⟨later, h, rfl⟩⟩
  rw [Recipe.run, shows_bind_iff]
  refine or_congr ?_ Iff.rfl
  refine exists_congr fun _ => exists_congr fun run => exists_congr fun w₁ => exists_congr fun later => ?_
  exact and_congr_right' (and_congr_left' (hdrive run w₁ later))

/-- The schedules, each with the world, that turns lead to. -/
inductive Reaches : Schedule C → World C S → Schedule C → World C S → Prop
  | refl (s : Schedule C) (w : World C S) : Reaches s w s w
  | turn {s s' s'' : Schedule C} {w w' w'' : World C S} (earlier : Reaches s w s' w')
      (h : s'.step.Yields w' (.ok (.inr s'')) w'') : Reaches s w s'' w''

/-- What is reached after a turn is reached. -/
theorem Reaches.head {s s' s'' : Schedule C} {w w' w'' : World C S}
    (h : s.step.Yields w (.ok (.inr s')) w') (hreaches : Reaches s' w' s'' w'') :
    Reaches s w s'' w'' := by
  induction hreaches with
  | refl => exact .turn (.refl s w) h
  | turn _ hstep ih => exact .turn (ih h) hstep

/-- A main run that has an outcome keeps it: either it has not had its turn yet, or it has settled. -/
theorem Reaches.main_of_settled {o : Outcome (Value C)} {s s' : Schedule C} {w w' : World C S}
    (h : Reaches s w s' w') (hs : s.main = .pending (.settled o) ∨ s.main = .settled o) :
    s'.main = .pending (.settled o) ∨ s'.main = .settled o := by
  induction h with
  | refl => exact hs
  | turn _ hstep ih =>
    obtain ⟨calls, hshows⟩ := (Action.yields_iff_shows fun _ => false).mp hstep
    rcases shows_step_next_iff.mp hshows with
      ⟨_, _, _, _, -, -, rfl⟩ | ⟨-, -, main, started, hturn, rfl⟩
    · exact ih
    · rcases ih with hmain | hmain <;> rw [hmain] at hturn
      · rcases shows_mainTurn_iff.mp hturn with ⟨t, w₂, hpoll, hr, -⟩ | ⟨e, -, hr⟩ <;> cases hr
        obtain ⟨-, ht, -⟩ := shows_pure_iff.mp hpoll
        exact Or.inr (Except.ok.inj ht)
      · obtain ⟨-, hr, -⟩ := shows_mainTurn_settled_iff.mp hturn
        cases hr
        exact Or.inr rfl

/-- What one turn does to two schedules from the same world: both go on, as schedules of which `K` holds
after these calls, or both are over, with outcomes of which `Q` holds. -/
inductive StepRelated (K : List (SeenCall C) → Schedule C → Schedule C → World C S → Prop)
    (Q : List (SeenCall C) → Option (Outcome (Value C)) → Option (Outcome (Value C)) → Prop)
    (seen : List (SeenCall C)) (w : World C S) :
    Option (Outcome (Value C)) ⊕ Schedule C → Option (Outcome (Value C)) ⊕ Schedule C → Prop
  | ended {o o' : Option (Outcome (Value C))} (h : Q seen o o') : StepRelated K Q seen w (.inl o) (.inl o')
  | turn {s s' : Schedule C} (h : K seen s s' w) : StepRelated K Q seen w (.inr s) (.inr s')

/-- A relation between schedules, given the calls seen so far and the world, that a turn keeps: what is
seen of it from the first schedule is seen of it from the second one. -/
def Simulates (watch : Func C → Bool)
    (K : List (SeenCall C) → Schedule C → Schedule C → World C S → Prop)
    (Q : List (SeenCall C) → Option (Outcome (Value C)) → Option (Outcome (Value C)) → Prop) : Prop :=
  ∀ past s s' w, K past s s' w → ∀ calls r w', s.step.Shows watch w calls r w' →
    ∃ r', s'.step.Shows watch w calls r' w' ∧ ResultRel (StepRelated K Q (past ++ calls) w') r r'

/-- What is seen of the first schedule to its end is seen of the second one. -/
theorem Simulates.runs {K : List (SeenCall C) → Schedule C → Schedule C → World C S → Prop}
    {Q : List (SeenCall C) → Option (Outcome (Value C)) → Option (Outcome (Value C)) → Prop}
    (h : Simulates watch K Q) (past : List (SeenCall C)) {s s' : Schedule C} {w w' : World C S}
    {calls : List (SeenCall C)} {r : Except Error (Option (Outcome (Value C)))}
    (hruns : Runs watch s w calls r w') (hs : K past s s' w) :
    ∃ r', Runs watch s' w calls r' w' ∧ ResultRel (Q (past ++ calls)) r r' := by
  induction hruns generalizing past s' with
  | ended hstep =>
    obtain ⟨_, hstep', ⟨⟨hq⟩⟩⟩ := h _ _ _ _ hs _ _ _ hstep
    exact ⟨_, .ended hstep', .ok hq⟩
  | fails hstep =>
    obtain ⟨_, hstep', ⟨_⟩⟩ := h _ _ _ _ hs _ _ _ hstep
    exact ⟨_, .fails hstep', .error _⟩
  | turn hstep _ ih =>
    obtain ⟨_, hstep', ⟨_ | hk⟩⟩ := h _ _ _ _ hs _ _ _ hstep
    obtain ⟨r', hruns', hr⟩ := ih _ hk
    rw [List.append_assoc] at hr
    exact ⟨r', .turn hstep' hruns', hr⟩

/-- A relation between a schedule and another main run in the place of its own, given the calls seen so far
and the world, that the turns of children and of the main run keep. -/
structure Replaces (watch : Func C → Bool)
    (M : List (SeenCall C) → Schedule C → Turn C → World C S → Prop)
    (Q : List (SeenCall C) → Option (Outcome (Value C)) → Option (Outcome (Value C)) → Prop) :
    Prop where
  child : ∀ {past main child waiting turned t w}, M past ⟨main, child :: waiting, turned⟩ t w →
    ∀ {calls left started w'}, (childTurn child).Shows watch w calls (.ok (left, started)) w' →
      M (past ++ calls) ⟨main, waiting ++ started, turned ++ left.toList⟩ t w'
  canAdvance_eq : ∀ {past main turned t w}, M past ⟨main, [], turned⟩ t w →
    main.canAdvance w = t.canAdvance w
  main : ∀ {past main turned t w}, M past ⟨main, [], turned⟩ t w →
    canAdvance w ⟨main, [], turned⟩ = true →
    ∀ {calls r w'}, (mainTurn main).Shows watch w calls r w' →
      ∃ r', (mainTurn t).Shows watch w calls r' w' ∧
        ResultRel (fun x x' => x'.2 = x.2 ∧ M (past ++ calls) ⟨x.1, turned ++ x.2, []⟩ x'.1 w') r r'
  ended : ∀ {past main turned t w}, M past ⟨main, [], turned⟩ t w →
    Q past main.outcome? t.outcome?

/-- Such schedules, which differ in their main runs only, are driven alike. -/
theorem Replaces.simulates {M : List (SeenCall C) → Schedule C → Turn C → World C S → Prop}
    {Q : List (SeenCall C) → Option (Outcome (Value C)) → Option (Outcome (Value C)) → Prop}
    (h : Replaces watch M Q) :
    Simulates watch (fun past s s' w => s' = { s with main := s'.main } ∧ M past s s'.main w) Q := by
  rintro past ⟨main, _, _⟩ ⟨t, waiting, turned⟩ w ⟨hs', hM⟩ calls r w' hstep
  obtain ⟨rfl, rfl⟩ := (Schedule.mk.inj hs').2
  cases waiting with
  | cons child waiting =>
    obtain ⟨r', hturn, rfl⟩ := shows_step_cons_iff.mp hstep
    refine ⟨_, shows_step_cons_iff.mpr ⟨r', hturn, rfl⟩, ?_⟩
    cases r' with
    | error e => exact .error e
    | ok x => exact .ok (.turn ⟨rfl, h.child hM hturn⟩)
  | nil =>
    have hsame : canAdvance w ⟨t, [], turned⟩ = canAdvance w ⟨main, [], turned⟩ := by
      rw [canAdvance, canAdvance, h.canAdvance_eq hM]
    cases hadvance : canAdvance w ⟨main, [], turned⟩ with
    | false =>
      obtain ⟨rfl, rfl, rfl⟩ := (shows_step_nil_over_iff hadvance).mp hstep
      refine ⟨_, (shows_step_nil_over_iff (hsame.trans hadvance)).mpr ⟨rfl, rfl, rfl⟩, .ok (.ended ?_)⟩
      rw [List.append_nil]
      exact h.ended hM
    | true =>
      obtain ⟨r₁, hturn, rfl⟩ := (shows_step_nil_iff hadvance).mp hstep
      obtain ⟨r₂, hturn', hr⟩ := h.main hM hadvance hturn
      refine ⟨_, (shows_step_nil_iff (hsame.trans hadvance)).mpr ⟨r₂, hturn', rfl⟩, ?_⟩
      cases hr with
      | error e => exact .error e
      | ok hx =>
        obtain ⟨hstarted, hnext⟩ := hx
        exact .ok (.turn ⟨by simp only [hstarted], hnext⟩)

end Schedule

end DynamicDispatch
