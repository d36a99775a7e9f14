import DynamicDispatch.Proofs.Dispatch
import DynamicDispatch.Proofs.Registry.Lookup
import DynamicDispatch.Proofs.Task.Equivalence

/-!
# The laws of chained tasks

Chains obey the laws of a monad, errors of functions included. Two chains in a row are one chain when
its step does what both steps do, one after the other; the laws are cases of this, and so is the way
through the protocols, which maps first and flattens then.
-/

namespace DynamicDispatch

open DynamicDispatch.Action (Alike alike_eq_iff attempt_bind alike_request request shows_attempt_iff
  shows_pure shows_pure_iff shows_request_iff)

variable {C S : Type}

namespace Run

/-- How a chain goes on from the turn of its first run. -/
def goOn (onSuccess onFailure : Step C) : Turn C → Action C S (Turn C)
  | .pending rest => return .pending (.chained rest onSuccess onFailure)
  | .settled ⟨.success, v⟩ => do enter (← onSuccess.next ⟨.success, v⟩)
  | .settled ⟨.failure, v⟩ => do enter (← onFailure.next ⟨.failure, v⟩)

/-- The turn of a chain is the turn of its first run, and how it goes on from there. -/
theorem poll_chained (first : Run C) (onSuccess onFailure : Step C) :
    (chained first onSuccess onFailure).poll (S := S) = first.poll >>= goOn onSuccess onFailure := by
  simp only [poll]
  congr 1
  funext t
  rcases t with ⟨side, v⟩ | rest
  · cases side <;> rfl
  · rfl

variable [Embedding C S] {watch : Func C → Bool}

/-- Giving a run its turn on request is giving it its turn. -/
theorem alike_request_poll (run : Run C) :
    Alike watch Eq (request (.poll run) : Action C S (Turn C)) run.poll :=
  alike_request fun _ => rfl

/-- A task that has an outcome settles with it at once. -/
theorem alike_enter_settled (o : Outcome (Value C)) :
    Alike watch Eq (enter (.settled o) : Action C S (Turn C)) (pure (.settled o)) :=
  alike_request_poll (.settled o)

/-- Entering a chain is starting its first task and giving the chain its turn. -/
theorem alike_enter_started (r : Recipe C) (onSuccess onFailure : Step C) :
    Alike watch Eq (enter (.chain r onSuccess onFailure) : Action C S (Turn C))
      (do (chained (← r.start) onSuccess onFailure).poll) := by
  simp only [enter, Recipe.start, bind_assoc, pure_bind]
  exact Alike.after _ fun run => alike_request_poll _

/-- When a function arrives that is to be applied, the other task is started and has its turn. -/
theorem alike_goOn_applyTo (values : Recipe C) (f : Func C) (onFailure : Step C) :
    Alike watch Eq (goOn (.applyTo values) onFailure (.settled ⟨.success, .func f⟩) : Action C S (Turn C))
      (do (chained (← values.start) (.apply f [] .success .fail) .keep).poll) := by
  simp only [goOn, Step.next, pure_bind]
  exact alike_enter_started _ _ _

/-- Entering a chain is entering its first task and going on from there. -/
theorem alike_enter_chain (r : Recipe C) (onSuccess onFailure : Step C) :
    Alike watch Eq (enter (.chain r onSuccess onFailure) : Action C S (Turn C))
      (enter r >>= goOn onSuccess onFailure) := by
  simp only [enter, Recipe.start, bind_assoc, pure_bind]
  refine Alike.after _ fun run => (alike_request_poll _).trans ?_
  rw [poll_chained]
  exact (alike_request_poll run).symm.before _

/-- From a task that has an outcome one goes on at once. -/
theorem alike_enter_settled_bind (o : Outcome (Value C)) (onSuccess onFailure : Step C) :
    Alike watch Eq (enter (.settled o) >>= goOn onSuccess onFailure : Action C S (Turn C))
      (goOn onSuccess onFailure (.settled o)) := by
  have h : Alike watch Eq (enter (.settled o) >>= goOn onSuccess onFailure : Action C S (Turn C))
      (pure (.settled o) >>= goOn onSuccess onFailure) := (alike_enter_settled o).before _
  rwa [pure_bind] at h

/-- A failure is kept. -/
theorem alike_goOn_failure (onSuccess : Step C) (e : Value C) :
    Alike watch Eq (goOn onSuccess .keep (.settled ⟨.failure, e⟩) : Action C S (Turn C))
      (pure (.settled ⟨.failure, e⟩)) :=
  alike_enter_settled (S := S) ⟨.failure, e⟩

/-- A failed task is kept by what follows it. -/
theorem alike_enter_fail_bind (onSuccess : Step C) (e : Value C) :
    Alike watch Eq (enter (.fail e) >>= goOn onSuccess .keep : Action C S (Turn C))
      (enter (.fail e)) :=
  (alike_enter_settled_bind _ onSuccess .keep).trans
    ((alike_goOn_failure onSuccess e).trans (alike_enter_settled ⟨.failure, e⟩).symm)

/-- The step `d` goes on from a success as the steps `a` and `b` do, one after the other. -/
def Fuses (S : Type) [Embedding C S] (watch : Func C → Bool) (a b d : Step C) : Prop :=
  ∀ v, Alike watch Eq
    (do (enter (← a.next ⟨.success, v⟩) >>= goOn b .keep) : Action C S (Turn C))
    (do enter (← d.next ⟨.success, v⟩))

/-- Runs that are equal, or that are two chains in a row and one chain of the same run. -/
inductive Fused (a b d : Step C) : Run C → Run C → Prop
  | same (run : Run C) : Fused a b d run run
  | chained (run : Run C) :
    Fused a b d (.chained (.chained run a .keep) b .keep) (.chained run d .keep)

/-- When the step of one chain does what the steps of two chains do, no turn tells them apart. -/
theorem bisimulation_fused {a b d : Step C} (h : Fuses S watch a b d) :
    Run.Bisimulation S watch (Fused a b d) := by
  refine ⟨fun x y hxy w => ?_, fun x y hxy => ?_⟩
  · cases hxy <;> rfl
  · have hself : ∀ {t t' : Turn C}, t = t' → Turn.Related (Fused a b d) t t' :=
      fun ht => .of_eq .same ht
    cases hxy with
    | same => exact (Alike.refl _).mono fun _ _ => hself
    | chained run =>
      rw [poll_chained, poll_chained, poll_chained, bind_assoc]
      refine Alike.after _ fun t => ?_
      rcases t with ⟨side, v⟩ | rest
      · cases side with
        | failure =>
          exact (alike_enter_fail_bind (S := S) b v).mono fun _ _ => hself
        | success =>
          simp only [goOn, bind_assoc]
          exact (h v).mono fun _ _ => hself
      · exact Alike.pure (.pending (.chained rest))

/-- The step `u` goes on from every success as the task that succeeds with it. -/
def IsUnit (S : Type) [Embedding C S] (watch : Func C → Bool) (u : Step C) : Prop :=
  ∀ v, Alike watch Eq (do enter (← u.next ⟨.success, v⟩) : Action C S (Turn C))
    (pure (.settled ⟨.success, v⟩))

/-- Runs that are equal, or that are a chain and its first run. -/
inductive Absorbed (u : Step C) : Run C → Run C → Prop
  | same (run : Run C) : Absorbed u run run
  | chained (run : Run C) : Absorbed u (.chained run u .keep) run

/-- When the step of a chain gives what it gets, no turn tells the chain from its first run. -/
theorem bisimulation_absorbed {u : Step C} (h : IsUnit S watch u) :
    Run.Bisimulation S watch (Absorbed u) := by
  have hself : ∀ {t t' : Turn C}, t = t' → Turn.Related (Absorbed u) t t' :=
    fun ht => .of_eq .same ht
  refine ⟨fun x y hxy w => ?_, fun x y hxy => ?_⟩
  · cases hxy <;> rfl
  · cases hxy with
    | same => exact (Alike.refl _).mono fun _ _ => hself
    | chained =>
      rw [poll_chained]
      suffices h : Alike watch (Turn.Related (Absorbed u)) (y.poll >>= goOn u .keep)
          (y.poll >>= pure : Action C S _) by
        rwa [bind_pure] at h
      refine Alike.after y.poll fun t => ?_
      rcases t with ⟨side, v⟩ | rest
      · cases side with
        | failure => exact (alike_goOn_failure u v).mono fun _ _ => hself
        | success => exact (h v).mono fun _ _ => hself
      · exact Alike.pure (.pending (.chained rest))

end Run

namespace Recipe

variable [Embedding C S] {watch : Func C → Bool}

/-- When the step of one chain does what the steps of two chains do, the two chains are equivalent to
the one. -/
theorem equivalent_of_fuses {a b d : Step C} (h : Run.Fuses S watch a b d) (r : Recipe C) :
    (Recipe.chain (.chain r a .keep) b .keep).Equivalent S watch (.chain r d .keep) := by
  refine Equivalent.of_bisimulation (Run.bisimulation_fused h) ?_
  simp only [start, bind_assoc, pure_bind]
  exact Alike.after _ fun run => Alike.pure (.chained run)

/-- When the step of a chain gives what it gets, the chain is equivalent to its first task. -/
theorem equivalent_of_isUnit {u : Step C} (h : Run.IsUnit S watch u) (r : Recipe C) :
    (Recipe.chain r u .keep).Equivalent S watch r := by
  refine Equivalent.of_bisimulation (Run.bisimulation_absorbed h) ?_
  suffices hstart : Alike watch (Run.Absorbed u)
      (do return .chained (← r.start) u .keep : Action C S (Run C)) (r.start >>= pure) by
    rwa [bind_pure] at hstart
  exact Alike.after _ fun run => Alike.pure (.chained run)

/-- What a callback that chains `g` onto the task of another one gives where that one gives a value:
the chained task for a task, whatever its identity, and any other value as it is. -/
inductive ChainedBy (operation : String) (g : Func C) : Value C → Value C → Prop
  | task (t : Task C) (id : Nat) :
    ChainedBy operation g (.task t) (.task ⟨id, t.recipe.tryAndThen operation g⟩)
  | other {v : Value C} (h : ∀ t, v ≠ .task t) : ChainedBy operation g v v

/-- A value that is no task is an error of the operation that insists on one. -/
theorem taskOf_of_ne {v : Value C} (h : ∀ t, v ≠ .task t) (operation : String) :
    Step.taskOf (some operation) (.ok v) = failFor (.typeMismatch operation "a Task" v.typeName) := by
  cases v with
  | task t => exact absurd rfl (h t)
  | _ => rfl

/-- Following one function and then another one is following the callback that chains the second one
onto the task of the first one. -/
theorem fuses_follow {operation : String} {f g chained : Func C}
    (h : ∀ v, Alike (S := S) watch (ChainedBy operation g) (call f [v]) (call chained [v])) :
    Run.Fuses S watch (.follow f (some operation)) (.follow g (some operation))
      (.follow chained (some operation)) := by
  intro v
  simp only [Step.next, bind_assoc, pure_bind]
  refine (h v).attempt.bind fun r r' hr => ?_
  cases hr with
  | error e => exact Run.alike_enter_fail_bind _ _
  | ok hv =>
    cases hv with
    | task t id => exact (Run.alike_enter_chain t.recipe _ _).symm
    | other hother =>
      rw [taskOf_of_ne hother]
      exact Run.alike_enter_fail_bind _ _

/-- Applying one function and then another one is applying a function that does what both do, one
after the other. -/
theorem fuses_apply {f g both : Func C}
    (h : ∀ v, Alike (S := S) watch Eq (call both [v]) (do call g [← call f [v]])) :
    Run.Fuses S watch (.apply f [] .success .fail) (.apply g [] .success .fail)
      (.apply both [] .success .fail) := by
  intro v
  simp only [Step.next, bind_assoc, pure_bind]
  have hboth : Alike watch Eq (call (S := S) both [v]).attempt
      (do call g [← call f [v]] : Action C S _).attempt :=
    (h v).attempt.mono fun _ _ => resultRel_eq_iff.mp
  rw [attempt_bind] at hboth
  refine Alike.trans ?_ (hboth.symm.before _)
  rw [bind_assoc]
  refine Alike.after _ fun r => ?_
  cases r with
  | error e => exact Run.alike_enter_fail_bind _ _
  | ok x =>
    refine (Run.alike_enter_settled_bind _ _ _).trans ?_
    simp only [Step.outcomeOf, Run.goOn, Step.next, bind_assoc, pure_bind]
    exact Alike.refl _

/-- Applying a function and flattening is following the function. -/
theorem fuses_flatten (f : Func C) :
    Run.Fuses S watch (.apply f [] .success .fail) .flatten (.follow f none) := by
  intro v
  simp only [Step.next, bind_assoc, pure_bind]
  refine Alike.after _ fun r => ?_
  cases r with
  | error e => exact Run.alike_enter_fail_bind _ _
  | ok x => exact Run.alike_enter_settled_bind _ _ _

/-- Where a function gives only tasks, it makes no difference whether an operation insists on one. -/
theorem alike_follow_of_task {f : Func C}
    (h : ∀ x (u : World C S) calls y u', (call f [x]).Shows watch u calls (.ok y) u' →
      ∃ s, y = .task s) (operation : String) (v : Value C) :
    Alike watch Eq
      (do Run.enter (← (Step.follow f none).next ⟨.success, v⟩) : Action C S (Turn C))
      (do Run.enter (← (Step.follow f (some operation)).next ⟨.success, v⟩)) := by
  simp only [Step.next, bind_assoc, pure_bind]
  refine Alike.after_shown fun w calls r w' hr => ?_
  obtain ⟨r', hr', hcall⟩ := shows_attempt_iff.mp hr
  obtain rfl := Except.ok.inj hr'
  cases r with
  | error e => exact Alike.refl _
  | ok y =>
    obtain ⟨s, rfl⟩ := h v w calls y w' hcall
    exact Alike.refl _

/-- Following a function that gives the task that succeeds with its argument gives what it gets. -/
theorem isUnit_follow {operation : String} {unit : Func C}
    (h : ∀ v (w : World C S), ∃ id,
      (call unit [v]).Shows watch w [] (.ok (.task ⟨id, .succeed v⟩)) w) :
    Run.IsUnit S watch (.follow unit (some operation)) := by
  intro v
  simp only [Step.next, bind_assoc, pure_bind]
  refine Alike.trans (alike_eq_iff.mpr fun w calls r w' => ?_) (Run.alike_enter_settled ⟨.success, v⟩)
  obtain ⟨id, hunit⟩ := h v w
  exact (shows_attempt_iff.mpr ⟨_, rfl, hunit⟩).bind_iff

/-- Tasks that start at once, as runs of which a turn shows the same, are equivalent. -/
theorem equivalent_of_poll {r s : Recipe C} {a b : Run C} (hr : r.start (S := S) = pure a)
    (hs : s.start (S := S) = pure b) (hadvance : ∀ w : World C S, a.canAdvance w = b.canAdvance w)
    (hpoll : Alike (S := S) watch Eq a.poll b.poll) : r.Equivalent S watch s := by
  have hself : ∀ {t t' : Turn C}, t = t' →
      Turn.Related (fun x y => x = y ∨ (x = a ∧ y = b)) t t' :=
    fun ht => .of_eq (fun _ => Or.inl rfl) ht
  have hbisimulation : Run.Bisimulation S watch fun x y => x = y ∨ (x = a ∧ y = b) := by
    refine ⟨fun x y hxy w => ?_, fun x y hxy => ?_⟩
    · rcases hxy with rfl | ⟨rfl, rfl⟩
      · rfl
      · exact hadvance w
    · rcases hxy with rfl | ⟨rfl, rfl⟩
      · exact (Alike.refl _).mono fun _ _ => hself
      · exact hpoll.mono fun _ _ => hself
  refine Equivalent.of_bisimulation hbisimulation ?_
  rw [hr, hs]
  exact Alike.pure (Or.inr ⟨rfl, rfl⟩)

/-- A failed task is not changed by what would follow a success. -/
theorem equivalent_fail (onSuccess : Step C) (e : Value C) :
    (Recipe.chain (.fail e) onSuccess .keep).Equivalent S watch (.fail e) :=
  equivalent_of_poll rfl rfl (fun _ => rfl) (Run.alike_goOn_failure onSuccess e)

/-- A failed task settles in its first turn, whatever would follow a success. -/
theorem alike_enter_fail_chain (onSuccess : Step C) (e : Value C) :
    Alike watch Eq (Run.enter (.chain (.fail e) onSuccess .keep) : Action C S (Turn C))
      (pure (.settled ⟨.failure, e⟩)) :=
  (Run.alike_enter_chain (.fail e) onSuccess .keep).trans
    ((Run.alike_enter_fail_bind onSuccess e).trans (Run.alike_enter_settled ⟨.failure, e⟩))

/-- A task that succeeds at once and what follows it: the step is taken in the first turn. -/
theorem alike_enter_succeed_chain (onSuccess : Step C) (v : Value C) :
    Alike watch Eq (Run.enter (.chain (.succeed v) onSuccess .keep) : Action C S (Turn C))
      (do Run.enter (← onSuccess.next ⟨.success, v⟩)) :=
  (Run.alike_enter_chain (.succeed v) onSuccess .keep).trans (Run.alike_enter_settled_bind _ _ _)

/-- Running a task that succeeds at once and what follows it is giving it its first turn and driving
what this leaves. -/
theorem alike_run_succeed_chain (onSuccess : Step C) (v : Value C) :
    Alike watch Eq ((Recipe.chain (.succeed v) onSuccess .keep).run : Action C S _)
      (do
        let turn ← Run.enter (.chain (.succeed v) onSuccess .keep)
        request (.drive ⟨turn, ← Schedule.takeStarted, []⟩)) := by
  have hdrive : Alike watch Eq ((Recipe.chain (.succeed v) onSuccess .keep).run : Action C S _)
      (Schedule.ofRun (.chained (.settled ⟨.success, v⟩) onSuccess .keep)).drive :=
    alike_request (q := .drive _) fun _ => rfl
  refine hdrive.trans (Alike.trans (alike_eq_iff.mpr fun _ _ _ _ => Iff.rfl)
    ((Run.alike_request_poll (.chained (.settled ⟨.success, v⟩) onSuccess .keep)).symm.before _))

/-- Mapping a function over a task and flattening the result through the protocols, in a world where
tasks have their own methods: the task that does both, not started. -/
theorem yields_andThen (f : Func C) (id : Nat) (t : Recipe C) {w : World C S}
    (hmap : w.registry.Provides .task .task .map)
    (hflatten : w.registry.Provides .task .task .flatten) :
    ∃ id', (Collection.andThen f (.task ⟨id, t⟩)).Yields w
      (.ok (.task ⟨id', (t.tryMap f).flatten⟩)) (w.minted 2) := by
  refine ⟨w.nextId + 1, ?_⟩
  have hmapped : (Generic.map f (.task ⟨id, t⟩)).Yields w
      (.ok (.task ⟨w.nextId, t.tryMap f⟩)) (w.minted 1) :=
    Action.Yields.method hmap rfl (by simp [Value.isPlaceholder]) ⟨0, rfl⟩
  refine hmapped.bind ?_
  exact Action.Yields.method (w := w.minted 1) hflatten rfl (by simp [Value.isPlaceholder]) ⟨0, rfl⟩

/-- A pipe of two functions, called without being watched, does what both do, one after the other. -/
theorem alike_call_pipe {f g pipe : Func C} (hcode : pipe.code = .pipe [f, g])
    (hwatch : watch pipe = false) (v : Value C) :
    Alike watch Eq (call pipe [v] : Action C S (Value C)) (do call g [← call f [v]]) := by
  refine (Action.alike_call hwatch [v]).trans ?_
  simp only [Callable.body, hcode, Collection.runPipe, List.foldlM_cons, List.foldlM_nil, bind_pure]
  exact Alike.refl _

/-- The laws of chained tasks, for every task `t`, values and functions, whoever watches.

A success followed by `f` calls `f` on the value once, in its first turn, and goes on as the task that
the result stands for: the task returned or, for an error, the task that fails with the error's text.
Following a function that gives the task that succeeds with its argument changes nothing. Following
two functions is following the one that chains the second onto the task of the first. After a failure
nothing is called. Mapping twice is mapping both functions at once. And mapping a function and
flattening through the protocols builds, without running anything, a task that is equivalent to
following the function. -/
theorem chain_laws (watch : Func C → Bool) (operation : String) (t : Recipe C) (v e : Value C)
    (f g : Func C) :
    (Alike watch Eq (Run.enter ((succeed v).tryAndThen operation f) : Action C S (Turn C))
        (do Run.enter (Step.taskOf (some operation) (← (call f [v]).attempt))) ∧
      Alike watch Eq (((succeed v).tryAndThen operation f).run : Action C S _)
        (do
          let turn ← Run.enter (Step.taskOf (some operation) (← (call f [v]).attempt))
          request (.drive ⟨turn, ← Schedule.takeStarted, []⟩))) ∧
    (∀ unit : Func C,
      (∀ x (w : World C S), ∃ id, (call unit [x]).Shows watch w [] (.ok (.task ⟨id, .succeed x⟩)) w) →
        (t.tryAndThen operation unit).Equivalent S watch t) ∧
    (∀ chained : Func C,
      (∀ x, Alike (S := S) watch (ChainedBy operation g) (call f [x]) (call chained [x])) →
        ((t.tryAndThen operation f).tryAndThen operation g).Equivalent S watch
          (t.tryAndThen operation chained)) ∧
    (((Recipe.fail e).tryAndThen operation f).Equivalent S watch (.fail e) ∧
      ∀ w : World C S, (Run.enter ((Recipe.fail e).tryAndThen operation f)).Shows watch w []
        (.ok (.settled ⟨.failure, e⟩)) w) ∧
    (∀ both : Func C,
      (∀ x, Alike (S := S) watch Eq (call both [x]) (do call g [← call f [x]])) →
        ((t.tryMap f).tryMap g).Equivalent S watch (t.tryMap both)) ∧
    (∀ (id : Nat) (w : World C S), w.registry.Provides .task .task .map →
      w.registry.Provides .task .task .flatten →
      (∀ x (u : World C S) calls y u', (call f [x]).Shows watch u calls (.ok y) u' → ∃ s, y = .task s) →
        ∃ s, (Collection.andThen f (.task ⟨id, t⟩)).Yields w (.ok (.task s)) (w.minted 2) ∧
          s.recipe.Equivalent S watch (t.tryAndThen operation f)) := by
  have henter : Alike watch Eq (Run.enter ((succeed v).tryAndThen operation f) : Action C S _)
      (do Run.enter (Step.taskOf (some operation) (← (call f [v]).attempt))) := by
    refine (alike_enter_succeed_chain _ v).trans ?_
    simp only [Step.next, bind_assoc, pure_bind]
    exact Alike.refl _
  refine ⟨⟨henter, ?_⟩, fun unit hunit => ?_, fun chained hchained => ?_, ⟨?_, fun w => ?_⟩,
    fun both hboth => ?_, fun id w hmap hflatten htask => ?_⟩
  · refine (alike_run_succeed_chain _ v).trans ?_
    have h := henter.before fun turn => (do
      request (.drive ⟨turn, ← Schedule.takeStarted, []⟩) : Action C S (Option (Outcome (Value C))))
    rwa [bind_assoc] at h
  · exact equivalent_of_isUnit (isUnit_follow hunit) t
  · exact equivalent_of_fuses (fuses_follow hchained) t
  · exact equivalent_fail _ e
  · exact (alike_eq_iff.mp (alike_enter_fail_chain _ e) w _ _ w).mpr
      (shows_pure _ _)
  · exact equivalent_of_fuses (fuses_apply hboth) t
  · obtain ⟨id', hyields⟩ := yields_andThen f id t hmap hflatten
    exact ⟨_, hyields, equivalent_of_fuses
      (fun x => (fuses_flatten f x).trans (alike_follow_of_task htask operation x)) t⟩

/-- The functions of a small program. -/
inductive Sample where
  /-- Gives the task that succeeds with its argument. -/
  | unit
  /-- Does the same and is watched. -/
  | give
  /-- Ends with an error, and is watched. -/
  | refuse
  /-- Chains `refuse` onto the task of `give`. -/
  | chained

namespace Sample

/-- What makes the functions different from each other. -/
def id : Sample → Nat
  | unit => 0
  | give => 1
  | refuse => 2
  | chained => 3

/-- A function of the program as a value. -/
def func (c : Sample) : Func Sample := ⟨c.id, "sample", 1, .host c⟩

/-- Applies `give` and then `refuse`. -/
def both : Func Sample := ⟨4, "both", 1, .pipe [give.func, refuse.func]⟩

/-- Watches `give` and `refuse`. -/
def watched (f : Func Sample) : Bool := f.id == 1 || f.id == 2

instance : Embedding Sample Unit where
  body
    | unit, args | give, args => return .task ⟨0, .succeed (argument args 0)⟩
    | refuse, _ => .fail (.invalidArgument "refuse" "refused")
    | chained, args => do
      match ← call give.func args with
      | .task t => return .task ⟨0, t.recipe.tryAndThen "follow" refuse.func⟩
      | other => return other

/-- `chained` chains `refuse` onto the task of `give`. -/
theorem alike_chained (x : Value Sample) :
    Alike (S := Unit) watched (ChainedBy "follow" refuse.func) (call give.func [x])
      (call chained.func [x]) := by
  have hbody : Alike (S := Unit) watched (ChainedBy "follow" refuse.func)
      (call give.func [x] >>= pure) (chained.func.body [x]) := by
    refine Alike.after _ fun r => ?_
    cases r with
    | task t => exact Alike.pure (.task t 0)
    | _ => exact Alike.pure (.other fun t h => by cases h)
  rw [bind_pure] at hbody
  exact hbody.trans (Action.alike_call rfl [x]).symm

/-- `give` gives tasks only. -/
theorem give_task (x : Value Sample) (u : World Sample Unit) (calls : List (SeenCall Sample))
    (y : Value Sample) (u' : World Sample Unit)
    (h : (call give.func [x]).Shows watched u calls (.ok y) u') : ∃ s, y = .task s := by
  obtain ⟨inside, hinside, -⟩ := shows_request_iff.mp h
  obtain ⟨-, hy, -⟩ := shows_pure_iff.mp hinside
  exact ⟨_, Except.ok.inj hy⟩

end Sample

/-- A task that gives up its turn once, followed by functions of which one refuses. -/
theorem chain_laws_refused :
    let t : Recipe Sample := .turns 1 (.succeed (.bool true))
    (t.tryAndThen "follow" Sample.unit.func).Equivalent Unit Sample.watched t ∧
      ((t.tryAndThen "follow" Sample.give.func).tryAndThen "follow" Sample.refuse.func).Equivalent Unit
        Sample.watched (t.tryAndThen "follow" Sample.chained.func) ∧
      ((t.tryMap Sample.give.func).tryMap Sample.refuse.func).Equivalent Unit Sample.watched
        (t.tryMap Sample.both) ∧
      ∃ s, (Collection.andThen Sample.give.func (.task ⟨0, t⟩)).Yields (World.initial ())
          (.ok (.task s)) ((World.initial ()).minted 2) ∧
        s.recipe.Equivalent Unit Sample.watched (t.tryAndThen "follow" Sample.give.func) := by
  intro t
  obtain ⟨-, hunit, hchained, -, hboth, hthrough⟩ := chain_laws (S := Unit) Sample.watched "follow" t
    (.bool true) .nil Sample.give.func Sample.refuse.func
  have hprovides : ∀ m, Registry.provider? (Registry.standardParts Sample) .task m = some .task →
      (World.initial (C := Sample) ()).registry.Provides .task .task m := by
    intro m hm
    simp only [World.initial, Registry.standard_eq_installPart]
    exact Registry.provides_installPart hm Registry.empty firstFreeId
  refine ⟨hunit Sample.unit.func fun x w => ⟨0, ?_⟩, hchained Sample.chained.func Sample.alike_chained,
    hboth Sample.both fun x => alike_call_pipe rfl rfl x,
    hthrough 0 (World.initial ()) (hprovides .map rfl) (hprovides .flatten rfl)
      Sample.give_task⟩
  exact (alike_eq_iff.mp (Action.alike_call rfl [x]) _ _ _ _).mpr (shows_pure _ _)

end Recipe

end DynamicDispatch
