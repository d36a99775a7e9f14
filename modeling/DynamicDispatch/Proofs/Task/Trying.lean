import DynamicDispatch.Proofs.Task.Handing

/-!
# The task methods and the direct combinators

Every operation on tasks is there twice: as a combinator, which puts the text of an error in the place of
a result, and as a method of a standard protocol, which fails with it. Both hand the outcome of the same
task to the same functions, so that turn by turn they are one machine whose replies are read in two ways.
Run as a whole they make the same calls and leave the same world, and they end alike unless the function
that gave the reply has ended with an error.
-/

namespace DynamicDispatch

open DynamicDispatch.Action (Alike AlikeFrom shows_attempt_iff shows_bind_iff shows_bind_pure_iff
  shows_pure shows_pure_iff)

variable {C S : Type}

open Reply

section Observed

variable [Embedding C S] {watch : Func C → Bool}

namespace Handing

/-- One of two handlers was seen to give a reply, among some calls. -/
def Given (watch : Func C → Bool) (onSuccess onFailure : Value C → Action C S (Reply C))
    (calls : List (SeenCall C)) (reply : Reply C) : Prop :=
  ∃ handler ∈ [onSuccess, onFailure], ∃ v w seen w',
    (handler v).Shows watch w seen (.ok reply) w' ∧ seen <:+: calls

/-- Either a function was seen to give a reply when it was called on the value of a task, or the reply is
a failure that is kept. -/
def GivenByFunction (S : Type) [Embedding C S] (watch : Func C → Bool) (calls : List (SeenCall C))
    (reply : Reply C) : Prop :=
  ∃ f, Given (S := S) watch (calling f [] .success) (keeping .failure) calls reply

/-- The replies that a machine may come to. -/
def Gives (watch : Func C → Bool) : Handing C S → List (SeenCall C) → Reply C → Prop
  | .value onSuccess onFailure _ => Given watch onSuccess onFailure
  | .function _ _ => GivenByFunction S watch

/-- What was given among some calls was given among more of them. -/
theorem Given.mono {a b : Value C → Action C S (Reply C)} {calls more : List (SeenCall C)}
    {reply : Reply C} (h : Given watch a b calls reply) (hle : calls <:+: more) :
    Given watch a b more reply := by
  obtain ⟨handler, hhandler, v, w, seen, w', hshows, hseen⟩ := h
  exact ⟨handler, hhandler, v, w, seen, w', hshows, hseen.trans hle⟩

/-- A failure that is kept can be given at any time. -/
theorem given_keeping (e : Value C) (a : Value C → Action C S (Reply C)) (w : World C S)
    (calls : List (SeenCall C)) : Given watch a (keeping .failure) calls (.kept ⟨.failure, e⟩) :=
  ⟨keeping .failure, by simp, e, w, [], w, shows_pure _ _, List.nil_infix⟩

/-- A turn of a task whose value is handed on leads to a reply of a handler, or the handlers are still
there. -/
theorem given_or_pending {a b : Value C → Action C S (Reply C)} {run : Run C} {w w' : World C S}
    {calls : List (SeenCall C)} {x : Reply C ⊕ Handing C S}
    (h : (valueTurn a b run).Shows watch w calls (.ok x) w') :
    (∃ reply, x = .inl reply ∧ Given watch a b calls reply) ∨ ∃ rest, x = .inr (.value a b rest) := by
  rw [valueTurn] at h
  rcases shows_bind_iff.mp h with ⟨calls₁, t, w₁, calls₂, -, hrest, rfl⟩ | ⟨e, -, he⟩
  · rcases t with ⟨side, v⟩ | rest
    · have hgiven : ∀ handler ∈ [a, b],
          (handler v >>= fun reply => pure (.inl reply)).Shows watch w₁ calls₂ (.ok x) w' →
            ∃ reply, x = .inl reply ∧ Given watch a b (calls₁ ++ calls₂) reply := by
        intro handler hhandler hshows
        obtain ⟨r, hreply, hr⟩ := shows_bind_pure_iff.mp hshows
        cases r with
        | error e => cases hr
        | ok reply =>
          exact ⟨reply, Except.ok.inj hr, handler, hhandler, v, w₁, calls₂, w', hreply,
            (List.suffix_append calls₁ calls₂).isInfix⟩
      cases side with
      | success => exact Or.inl (hgiven a (by simp) hrest)
      | failure => exact Or.inl (hgiven b (by simp) hrest)
    · obtain ⟨-, hx, -⟩ := shows_pure_iff.mp hrest
      exact Or.inr ⟨rest, Except.ok.inj hx⟩
  · cases he

/-- What a turn may lead to: a reply that the machine may come to, or a machine that comes to no other
replies and that waits for a function only when the task of the function is still running. -/
def MayTurn (watch : Func C → Bool) (m : Handing C S) (w : World C S) (calls : List (SeenCall C))
    (w' : World C S) : Reply C ⊕ Handing C S → Prop
  | .inl reply => m.Gives watch calls reply
  | .inr m' => (∀ later reply, m'.Gives watch later reply → m.Gives watch later reply) ∧
    ∀ values rest, m' = .function values rest →
      ∃ run, m = .function values run ∧ run.poll.Shows watch w calls (.ok (.pending rest)) w'

/-- A turn leads to what it may lead to. -/
theorem mayTurn {m : Handing C S} {w w' : World C S} {calls : List (SeenCall C)}
    {x : Reply C ⊕ Handing C S} (h : m.turn.Shows watch w calls (.ok x) w') :
    m.MayTurn watch w calls w' x := by
  cases m with
  | value a b run =>
    obtain ⟨reply, rfl, hreply⟩ | ⟨rest, rfl⟩ := given_or_pending h
    · exact hreply
    · exact ⟨fun _ _ => id, fun _ _ heq => by cases heq⟩
  | function values run =>
    rw [turn] at h
    rcases shows_bind_iff.mp h with ⟨calls₁, t, w₁, calls₂, hpoll, hrest, rfl⟩ | ⟨e, -, he⟩
    case inr => cases he
    have hfails : ∀ {e : Value C}, (pure (.inl (.kept ⟨.failure, e⟩)) :
        Action C S (Reply C ⊕ Handing C S)).Shows watch w₁ calls₂ (.ok x) w' →
          ∃ reply, x = .inl reply ∧ GivenByFunction S watch (calls₁ ++ calls₂) reply := by
      intro e hshows
      obtain ⟨-, hx, -⟩ := shows_pure_iff.mp hshows
      exact ⟨_, Except.ok.inj hx, ⟨0, "", 0, .resolver 0 .failure⟩, given_keeping e _ w₁ _⟩
    rcases t with ⟨side, v⟩ | rest
    · cases side with
      | failure =>
        obtain ⟨reply, rfl, hreply⟩ := hfails hrest
        exact hreply
      | success =>
        cases v with
        | func f =>
          rcases shows_bind_iff.mp hrest with ⟨calls₃, run', w₂, calls₄, -, hvalue, rfl⟩ | ⟨e, -, he⟩
          case inr => cases he
          obtain ⟨reply, rfl, hreply⟩ | ⟨rest, rfl⟩ := given_or_pending hvalue
          · have hlater : calls₄ <:+: calls₁ ++ (calls₃ ++ calls₄) := by
              rw [← List.append_assoc]
              exact (List.suffix_append _ calls₄).isInfix
            exact ⟨f, hreply.mono hlater⟩
          · exact ⟨fun _ _ hgiven => ⟨f, hgiven⟩, fun _ _ heq => by cases heq⟩
        | _ =>
          obtain ⟨reply, rfl, hreply⟩ := hfails hrest
          exact hreply
    · obtain ⟨rfl, hx, rfl⟩ := shows_pure_iff.mp hrest
      obtain rfl := Except.ok.inj hx
      rw [List.append_nil]
      exact ⟨fun _ _ => id, fun _ _ heq => by cases heq; exact ⟨run, rfl, hpoll⟩⟩

/-- In this world, a task that is running in the place of a function does not settle with any other value
in its next turn. -/
def Fits (watch : Func C → Bool) (w : World C S) : Handing C S → Prop
  | .value _ _ _ => True
  | .function _ run => ∀ calls v w', run.poll.Shows watch w calls (.ok (.settled ⟨.success, v⟩)) w' →
    ∃ f, v = .func f

end Handing

/-- A relation between runs and machines that every turn keeps, with replies read as outcomes, as long as
nothing but a function arrives in the place of one. -/
structure Handing.Mirrors (watch : Func C → Bool) (onError : OnError) (R : Run C → Handing C S → Prop) :
    Prop where
  /-- A turn would get both further, or neither. -/
  canAdvance_eq : ∀ run m, R run m → ∀ w : World C S, run.canAdvance w = m.canAdvance w
  /-- What is seen of a turn is the same, and the answers agree. -/
  poll_alike : ∀ run m, R run m → ∀ w, m.Fits watch w →
    AlikeFrom watch w (Handing.TurnRelated onError R) run.poll m.turn

/-- As long as nothing but a function arrives in the place of one, no sequence of turns tells a task apart
from the machine with its replies read as outcomes. -/
def Recipe.HandsWhile (S : Type) [Embedding C S] (watch : Func C → Bool) (onError : OnError)
    (t : Recipe C) (start : Action C S (Handing C S)) : Prop :=
  ∃ R, Handing.Mirrors watch onError R ∧ Alike watch R t.start start

/-- What always hands its outcome on does so then. -/
theorem Recipe.Hands.while {onError : OnError} {t : Recipe C} {start : Action C S (Handing C S)}
    (h : t.Hands S watch onError start) : t.HandsWhile S watch onError start := by
  obtain ⟨R, hstart, hadvance, hpoll⟩ := h
  exact ⟨R, ⟨hadvance, fun run m hm w _ => (hpoll run m hm).from w⟩, hstart⟩

/-- The runs of a task that is followed by a function, which maps the function that arrives over the other
task. -/
inductive Handing.Following (values : Recipe C) (apply : Func C) : Run C → Handing C S → Prop
  | function (run : Run C) :
    Following values apply (.chained run (.follow apply none) .keep) (.function values run)
  | value (f : Func C) (run : Run C) :
    Following values apply (.chained run (.apply f [] .success .substitute) .keep)
      (.value (calling f [] .success) (keeping .failure) run)

/-- Going on from the function that one task succeeds with as the other one, mapped by the function, hands
the value of the other one to the function. -/
theorem Recipe.handsWhile_andThen (values functions : Recipe C) {apply : Func C}
    (happly : ∀ (f : Func C) (w : World C S), ∃ id,
      (call apply [.func f]).Shows watch w [] (.ok (.task ⟨id, values.map f⟩)) w) :
    (functions.andThen apply).HandsWhile S watch .substitute
      (Handing.startFunction values functions) := by
  have hvalue : ∀ (f : Func C) (run : Run C),
      Alike watch (Handing.TurnRelated .substitute (Handing.Following values apply))
        (Run.chained run (.apply f [] .success .substitute) .keep).poll
        (Handing.valueTurn (calling f [] .success) (keeping .failure) run : Action C S _) :=
    fun f run => Handing.alike_valueTurn (Step.answers_apply .substitute .success .success f [])
      (Step.answers_keep .substitute .failure) (.value f) run
  refine ⟨Handing.Following values apply, ⟨?canAdvance, ?turn⟩, ?start⟩
  case start =>
    simp only [Recipe.andThen, Recipe.start, Handing.startFunction]
    exact Alike.after _ fun run => Alike.pure (.function run)
  case canAdvance =>
    rintro _ _ (⟨run⟩ | ⟨f, run⟩) w <;> rfl
  case turn =>
    rintro _ _ (⟨run⟩ | ⟨f, run⟩) w hfits
    · rw [Run.poll_chained, Handing.turn]
      refine AlikeFrom.after fun calls t w₁ hpoll => ?_
      rcases t with ⟨side, v⟩ | rest
      · cases side with
        | failure =>
          exact (Run.alike_goOn_failure _ v).eq_trans (Alike.pure (.settled (.kept ⟨.failure, v⟩)))
        | success =>
          obtain ⟨f, rfl⟩ := hfits calls v w₁ hpoll
          -- The function has arrived, so that the mapped task is started and has its turn.
          have henter : Alike watch Eq
              (Run.goOn (.follow apply none) .keep (.settled ⟨.success, .func f⟩) : Action C S (Turn C))
              (do (Run.chained (← values.start) (.apply f [] .success .substitute) .keep).poll) := by
            simp only [Run.goOn, Step.next, bind_assoc, pure_bind]
            refine Alike.trans (q := Run.enter (values.map f)) ?_ (Run.alike_enter_started _ _ _)
            refine Action.alike_eq_iff.mpr fun u calls r u' => ?_
            obtain ⟨id, hshows⟩ := happly f u
            exact (shows_attempt_iff.mpr ⟨_, rfl, hshows⟩).bind_iff
          exact henter.eq_trans (Alike.after _ fun run => hvalue f run)
      · exact Alike.pure (.pending (.function rest))
    · exact (hvalue f run).from w

/-- Whenever the main run of a schedule settles successfully, it is with a function. -/
def Schedule.SucceedsWithFunctions (s : Schedule C) (w : World C S) : Prop :=
  ∀ s' w', Reaches s w s' w' → ∀ v, s'.main = .settled ⟨.success, v⟩ → ∃ f, v = .func f

/-- Run on its own from this world, a task succeeds with nothing but a function. -/
def Recipe.SucceedsWithFunctions (t : Recipe C) (w : World C S) : Prop :=
  ∀ run w', t.start.Yields w (.ok run) w' → (Schedule.ofRun run).SucceedsWithFunctions w'

/-- So it is after a turn. -/
theorem Schedule.SucceedsWithFunctions.step {s s' : Schedule C} {w w' : World C S}
    (h : s.SucceedsWithFunctions w) (hstep : s.step.Yields w (.ok (.inr s')) w') :
    s'.SucceedsWithFunctions w' :=
  fun s'' w'' hreaches => h s'' w'' (hreaches.head hstep)

/-- A task that succeeds at once with a function succeeds with nothing else. -/
theorem Recipe.succeedsWithFunctions_succeed (f : Func C) (w : World C S) :
    (Recipe.succeed (.func f)).SucceedsWithFunctions w := by
  intro run w₁ hstart s w' hreaches v hv
  obtain ⟨hrun, rfl⟩ := hstart.unique (Action.yields_pure (Run.settled ⟨.success, .func f⟩) w)
  obtain rfl := Except.ok.inj hrun
  rcases hreaches.main_of_settled (Or.inl rfl) with hmain | hmain
  · cases hmain.symm.trans hv
  · cases hmain.symm.trans hv
    exact ⟨f, rfl⟩

namespace Handing

/-- Driven among these children, a task that is running in the place of a function succeeds with nothing
else. -/
def FitsAmong (waiting turned : List (Child C)) (w : World C S) (m : Handing C S) : Prop :=
  ∀ values run, m = .function values run →
    (⟨.pending run, waiting, turned⟩ : Schedule C).SucceedsWithFunctions w

/-- Where it gets its turn, it settles with nothing else. -/
theorem FitsAmong.fits {turned : List (Child C)} {w : World C S} {m : Handing C S}
    (h : m.FitsAmong [] turned w)
    (hadvance : (m.canAdvance w || turned.any (·.run.canAdvance w)) = true) : m.Fits watch w := by
  cases m with
  | value a b run => trivial
  | function values run =>
    intro calls v w' hpoll
    have hlap : Schedule.canAdvance w ⟨.pending run, [], turned⟩ = true := hadvance
    exact h values run rfl _ _ (.turn (.refl _ w) (Schedule.shows_step_of_poll hlap hpoll).yields) v rfl

/-- A turn of a child leaves it so. -/
theorem FitsAmong.child {child : Child C} {waiting turned : List (Child C)} {w w' : World C S}
    {m : Handing C S} (h : m.FitsAmong (child :: waiting) turned w)
    {calls : List (SeenCall C)} {left : Option (Child C)} {started : List (Child C)}
    (hturn : (Schedule.childTurn child).Shows watch w calls (.ok (left, started)) w') :
    m.FitsAmong (waiting ++ started) (turned ++ left.toList) w' :=
  fun values run hm =>
    (h values run hm).step (Schedule.shows_step_cons_iff.mpr ⟨_, hturn, rfl⟩).yields

/-- A turn of its own leaves it so. -/
theorem FitsAmong.main {turned : List (Child C)} {w w' : World C S} {m m' : Handing C S}
    (h : m.FitsAmong [] turned w)
    (hadvance : (m.canAdvance w || turned.any (·.run.canAdvance w)) = true)
    {calls : List (SeenCall C)} (hturn : m.turn.Shows watch w calls (.ok (.inr m')) w') :
    m'.FitsAmong (turned ++ w'.started) [] { w' with started := [] } := by
  rintro values rest rfl
  obtain ⟨run, rfl, hpoll⟩ := (mayTurn hturn).2 values rest rfl
  have hlap : Schedule.canAdvance w ⟨.pending run, [], turned⟩ = true := hadvance
  exact (h values run rfl).step (Schedule.shows_step_of_poll hlap hpoll).yields

end Handing

/-- Two outcomes that are readings of one reply, or both are missing. -/
def Reply.Readings (onError onError' : OnError) (gives : Reply C → Prop)
    (o o' : Option (Outcome (Value C))) : Prop :=
  ∃ reply : Option (Reply C), (∀ r ∈ reply, gives r) ∧ o = reply.map (outcome onError) ∧
    o' = reply.map (outcome onError')

namespace Handing

variable {onError onError' : OnError} {R R' : Run C → Handing C S → Prop}
  {gives : List (SeenCall C) → Reply C → Prop}

/-- The main run of a schedule and another run in its place stand for the same machine, which comes to
no other replies than the given ones, or they have settled with readings of its reply. -/
structure Standing (watch : Func C → Bool) (onError onError' : OnError)
    (R R' : Run C → Handing C S → Prop) (gives : List (SeenCall C) → Reply C → Prop)
    (past : List (SeenCall C)) (s : Schedule C) (t : Turn C) (w : World C S)
    (x : Reply C ⊕ Handing C S) : Prop where
  main : TurnRelated onError R s.main x
  other : TurnRelated onError' R' t x
  reply : ∀ reply, x = .inl reply → gives past reply
  machine : ∀ m, x = .inr m → (∀ calls reply, m.Gives watch calls reply → gives calls reply) ∧
    m.FitsAmong s.waiting s.turned w

/-- As long as that is so, one run can stand in the place of the other one. -/
theorem Mirrors.replaces (hR : Mirrors watch onError R) (hR' : Mirrors watch onError' R')
    (hmono : ∀ calls more reply, gives calls reply → calls <:+: more → gives more reply) :
    Schedule.Replaces watch
      (fun past s t w => ∃ x, Standing watch onError onError' R R' gives past s t w x)
      (fun past => Readings onError onError' (gives past)) := by
  refine ⟨?child, ?canAdvance_eq, ?main, ?ended⟩
  case child =>
    rintro past main child waiting turned t w ⟨x, hx⟩ calls left started w' hchild
    refine ⟨x, hx.main, hx.other, fun reply h => ?_, fun m h => ?_⟩
    · exact hmono _ _ _ (hx.reply reply h) (List.prefix_append past calls).isInfix
    · exact ⟨(hx.machine m h).1, (hx.machine m h).2.child hchild⟩
  case canAdvance_eq =>
    rintro past _ turned _ w ⟨x, ⟨⟨reply⟩ | ⟨hmain⟩, ⟨_⟩ | ⟨hother⟩, -, -⟩⟩
    · rfl
    · exact (hR.canAdvance_eq _ _ hmain w).trans (hR'.canAdvance_eq _ _ hother w).symm
  case main =>
    rintro past _ turned _ w ⟨x, ⟨⟨reply⟩ | ⟨hmain⟩, ⟨_⟩ | ⟨hother⟩, hreply, hmachine⟩⟩ hlap calls r w'
      hshows
    · obtain ⟨rfl, rfl, rfl⟩ := Schedule.shows_mainTurn_settled_iff.mp hshows
      refine ⟨_, Schedule.shows_mainTurn_settled_iff.mpr ⟨rfl, rfl, rfl⟩, .ok ⟨rfl, .inl reply, ?_⟩⟩
      rw [List.append_nil]
      exact ⟨.settled reply, .settled reply, hreply, fun m h => by cases h⟩
    · obtain ⟨hgives, hfits⟩ := hmachine _ rfl
      rw [Schedule.canAdvance, Turn.canAdvance, hR.canAdvance_eq _ _ hmain w] at hlap
      have hforth := hR.poll_alike _ _ hmain w (hfits.fits hlap)
      have hback := hR'.poll_alike _ _ hother w (hfits.fits hlap)
      rcases Schedule.shows_mainTurn_iff.mp hshows with ⟨t, w₁, hpoll, rfl, rfl⟩ | ⟨e, hpoll, rfl⟩
      · obtain ⟨_, ⟨hx⟩, hmachine'⟩ := hforth.forth hpoll
        obtain ⟨_, ⟨hx'⟩, hpoll'⟩ := hback.back hmachine'
        refine ⟨_, Schedule.shows_mainTurn_iff.mpr (Or.inl ⟨_, _, hpoll', rfl, rfl⟩),
          .ok ⟨rfl, _, hx, hx', ?_, ?_⟩⟩
        · rintro reply rfl
          exact hmono _ _ _ (hgives _ _ (mayTurn hmachine')) (List.suffix_append past calls).isInfix
        · rintro m' rfl
          exact ⟨fun later reply h => hgives _ _ ((mayTurn hmachine').1 later reply h),
            hfits.main hlap hmachine'⟩
      · obtain ⟨_, ⟨_⟩, hmachine'⟩ := hforth.forth hpoll
        obtain ⟨_, ⟨_⟩, hpoll'⟩ := hback.back hmachine'
        exact ⟨_, Schedule.shows_mainTurn_iff.mpr (Or.inr ⟨_, hpoll', rfl⟩), .error e⟩
  case ended =>
    rintro past _ turned _ w ⟨x, ⟨⟨reply⟩ | ⟨hmain⟩, ⟨_⟩ | ⟨hother⟩, hreply, -⟩⟩
    · exact ⟨some reply, fun r h => hreply r (by rw [Option.mem_some_iff.mp h]), rfl, rfl⟩
    · exact ⟨none, by simp, rfl, rfl⟩

end Handing

/-- Run as a whole, two tasks that hand their outcome on as one machine does make the same calls and leave
the same world, and their outcomes are readings of one reply. -/
theorem Recipe.HandsWhile.run {onError onError' : OnError} {t t' : Recipe C}
    {start : Action C S (Handing C S)} {gives : List (SeenCall C) → Reply C → Prop}
    (h : t.HandsWhile S watch onError start) (h' : t'.HandsWhile S watch onError' start)
    (hmono : ∀ calls more reply, gives calls reply → calls <:+: more → gives more reply)
    {w : World C S} (hstart : ∀ calls m w₁, start.Shows watch w calls (.ok m) w₁ →
      (∀ calls reply, m.Gives watch calls reply → gives calls reply) ∧ m.FitsAmong [] [] w₁)
    {calls : List (SeenCall C)} {r : Except Error (Option (Outcome (Value C)))} {w' : World C S}
    (hrun : t.run.Shows watch w calls r w') :
    ∃ r', t'.run.Shows watch w calls r' w' ∧
      ResultRel (Readings onError onError' (gives calls)) r r' := by
  obtain ⟨R, hR, hstarts⟩ := h
  obtain ⟨R', hR', hstarts'⟩ := h'
  rcases Schedule.shows_run_iff.mp hrun with
    ⟨calls₁, run, w₁, later, hshows, hruns, rfl⟩ | ⟨e, hshows, rfl⟩
  · obtain ⟨_, @⟨_, m, hrelated⟩, hmachine⟩ := hstarts.shows hshows
    obtain ⟨_, @⟨_, run', hrelated'⟩, hshows'⟩ := hstarts'.flip.shows hmachine
    obtain ⟨hgives, hfits⟩ := hstart _ _ _ hmachine
    have hstanding : Handing.Standing watch onError onError' R R' gives calls₁ (.ofRun run)
        (.pending run') w₁ (.inr m) := by
      refine ⟨.pending hrelated, .pending hrelated', nofun, ?_⟩
      rintro _ ⟨rfl⟩
      exact ⟨hgives, hfits⟩
    obtain ⟨r', hruns', hr⟩ :=
      (hR.replaces hR' hmono).simulates.runs _ hruns
        ⟨(rfl : Schedule.ofRun run' = _), _, hstanding⟩
    exact ⟨r', Schedule.shows_run_iff.mpr (Or.inl ⟨_, _, _, _, hshows', hruns', rfl⟩), hr⟩
  · obtain ⟨_, ⟨_⟩, hmachine⟩ := hstarts.shows hshows
    obtain ⟨_, ⟨_⟩, hshows'⟩ := hstarts'.flip.shows hmachine
    exact ⟨_, Schedule.shows_run_iff.mpr (Or.inr ⟨_, hshows', rfl⟩), .error e⟩

/-- How a task that fails with an error and one that puts its text in the place of a result end: neither
has settled, or both have, alike unless a function has ended with an error. -/
inductive Reply.Tried (gives : Reply C → Prop) :
    Option (Outcome (Value C)) → Option (Outcome (Value C)) → Prop
  | unsettled : Tried gives none none
  /-- No function was called. -/
  | kept (o : Outcome (Value C)) (h : gives (.kept o)) : Tried gives (some o) (some o)
  /-- A function has given a value. -/
  | given (side : Side) (v : Value C) (h : gives (.called side (.ok v))) :
    Tried gives (some ⟨side, v⟩) (some ⟨side, v⟩)
  /-- A function has ended with an error. -/
  | erred (side : Side) (e : Error) (h : gives (.called side (.error e))) :
    Tried gives (some ⟨.failure, failureValue e⟩) (some ⟨side, failureValue e⟩)

/-- They are readings of it in the other order, too. -/
theorem Reply.Readings.symm {onError onError' : OnError} {gives : Reply C → Prop}
    {o o' : Option (Outcome (Value C))} (h : Readings onError onError' gives o o') :
    Readings onError' onError gives o' o :=
  h.imp fun _ hr => ⟨hr.1, hr.2.2, hr.2.1⟩

/-- Readings of one reply, once with failures and once with texts in their place. -/
theorem Reply.Readings.tried {gives : Reply C → Prop} {o o' : Option (Outcome (Value C))}
    (h : Readings .fail .substitute gives o o') : Tried gives o o' := by
  obtain ⟨reply, hgives, rfl, rfl⟩ := h
  rcases reply with _ | ⟨o⟩ | ⟨side, v | e⟩
  · exact .unsettled
  · exact .kept o (hgives _ rfl)
  · exact .erred side _ (hgives _ rfl)
  · exact .given side _ (hgives _ rfl)

/-- A task does what another one does and fails with an error of a function.

Turn by turn both are one machine, the replies of which are read as failures and with texts in the place of
results. Run as a whole from a world that fits, each is seen to do what the other one does, and they end as
said by `Tried`. -/
structure Recipe.Tries (watch : Func C → Bool) (t substituting : Recipe C)
    (start : Action C S (Handing C S)) (fits : World C S → Prop)
    (gives : List (SeenCall C) → Reply C → Prop) : Prop where
  hands : t.Hands S watch .fail start
  substitutes : substituting.HandsWhile S watch .substitute start
  run : ∀ w, fits w → ∀ calls r w', t.run.Shows watch w calls r w' →
    ∃ r', substituting.run.Shows watch w calls r' w' ∧ ResultRel (Tried (gives calls)) r r'
  substituted : ∀ w, fits w → ∀ calls r' w', substituting.run.Shows watch w calls r' w' →
    ∃ r, t.run.Shows watch w calls r w' ∧ ResultRel (Tried (gives calls)) r r'

/-- What two tasks that hand their outcome on alike have to do with each other. -/
theorem Recipe.tries_of_hands {t substituting : Recipe C} {start : Action C S (Handing C S)}
    {fits : World C S → Prop} {gives : List (SeenCall C) → Reply C → Prop}
    (h : t.Hands S watch .fail start) (h' : substituting.HandsWhile S watch .substitute start)
    (hmono : ∀ calls more reply, gives calls reply → calls <:+: more → gives more reply)
    (hstart : ∀ w, fits w → ∀ calls m w₁, start.Shows watch w calls (.ok m) w₁ →
      (∀ calls reply, m.Gives watch calls reply → gives calls reply) ∧ m.FitsAmong [] [] w₁) :
    t.Tries watch substituting start fits gives := by
  refine ⟨h, h', fun w hw calls r w' hrun => ?_, fun w hw calls r' w' hrun => ?_⟩
  · obtain ⟨r', hrun', hr⟩ := h.while.run h' hmono (hstart w hw) hrun
    refine ⟨r', hrun', ?_⟩
    cases hr with
    | error e => exact .error e
    | ok ho => exact .ok ho.tried
  · obtain ⟨r, hrun', hr⟩ := h'.run h.while hmono (hstart w hw) hrun
    refine ⟨r, hrun', ?_⟩
    cases hr with
    | error e => exact .error e
    | ok ho => exact .ok ho.symm.tried

/-- A task hands the value of another one to two handlers and fails with an error of a function. -/
def Recipe.TriesToHand (watch : Func C → Bool) (onSuccess onFailure : Value C → Action C S (Reply C))
    (first t substituting : Recipe C) : Prop :=
  t.Tries watch substituting (Handing.start onSuccess onFailure first) (fun _ => True)
    (Handing.Given watch onSuccess onFailure)

/-- Two chains whose steps answer as handlers do, whatever becomes of an error. -/
theorem Recipe.tries_chain {onSuccess onFailure : OnError → Step C}
    {a b : Value C → Action C S (Reply C)} (ha : ∀ e, (onSuccess e).Answers S e .success a)
    (hb : ∀ e, (onFailure e).Answers S e .failure b) (first : Recipe C) :
    TriesToHand watch a b first (.chain first (onSuccess .fail) (onFailure .fail))
      (.chain first (onSuccess .substitute) (onFailure .substitute)) := by
  refine tries_of_hands (hands_chain (ha _) (hb _) first) (hands_chain (ha _) (hb _) first).while
    (fun _ _ _ => Handing.Given.mono) fun w _ calls m w₁ hstart => ?_
  obtain ⟨r, -, hr⟩ := shows_bind_pure_iff.mp hstart
  cases r with
  | error e => cases hr
  | ok run =>
    obtain rfl := Except.ok.inj hr
    exact ⟨fun _ _ => id, nofun⟩

/-- Applying the function of one task to the value of another one, and following the first one with what
maps the function over the second. -/
theorem Recipe.tries_ap (values functions : Recipe C) {apply : Func C}
    (happly : ∀ (f : Func C) (w : World C S), ∃ id,
      (call apply [.func f]).Shows watch w [] (.ok (.task ⟨id, values.map f⟩)) w) :
    (Recipe.ap values functions).Tries (S := S) watch (functions.andThen apply)
      (Handing.startFunction values functions) functions.SucceedsWithFunctions
      (Handing.GivenByFunction S watch) := by
  refine tries_of_hands (hands_ap values functions) (handsWhile_andThen values functions happly)
    (fun _ _ _ h hle => h.imp fun f hf => hf.mono hle) fun w hw calls m w₁ hstart => ?_
  obtain ⟨r, hshows, hr⟩ := shows_bind_pure_iff.mp hstart
  cases r with
  | error e => cases hr
  | ok run =>
    obtain rfl := Except.ok.inj hr
    refine ⟨fun _ _ => id, ?_⟩
    rintro _ _ ⟨rfl⟩
    exact hw run w₁ hshows.yields

/-- A method called on tasks shows nothing but a new task, which is not started. -/
def Action.Builds (watch : Func C → Bool) (w : World C S) (p : Action C S (Value C)) (t : Recipe C) :
    Prop :=
  p.Shows watch w [] (.ok (.task ⟨w.nextId, t⟩)) (w.minted 1)

/-- A method of tasks that gives a task builds it. -/
theorem builds_method (hwatch : ∀ (m : Method) (g : Func C), g.implements m = true → watch g = false)
    {w : World C S} (hprovides : ∀ m ∈ Family.task.methods, w.registry.Provides .task .task m)
    {m : Method} (hm : m ∈ Family.task.methods) {args : List (Value C)} {r : Recipe C}
    (hkey : (lastArgument args).typeKey = .task) (hlength : args.length = m.arity)
    (hgiven : ∀ v ∈ args, v.isPlaceholder = false)
    (himplementation : Family.task.implementation m args = Methods.taskValue (S := S) r) :
    Action.Builds watch w (m.call args) r := by
  have hfound : w.registry.Provides (lastArgument args).typeKey .task m := hkey ▸ hprovides m hm
  refine Action.Shows.method (hwatch m) hfound hlength hgiven ?_
  rw [himplementation]
  exact ⟨0, rfl⟩

/-- The methods of tasks and the direct combinators, for every task, functions that may do anything, and
whoever watches anything but the implementations of the methods.

A call of a method never ends with an error: it builds a task without running anything. The task that
`map`, `bimap`, `foldl` and `foldr` build hands the value of the first task to the same functions as the
combinator does and fails where one of them ends with an error. The task that `flatten` builds is the
combinator's. The one that `ap` builds does the same as following the task of functions by what maps the
function that arrives over the other task, as long as nothing else arrives. -/
theorem task_methods_match_combinators
    (hwatch : ∀ (m : Method) (g : Func C), g.implements m = true → watch g = false) {w : World C S}
    (hprovides : ∀ m ∈ Family.task.methods, w.registry.Provides .task .task m)
    (t functions : Task C) (f g : Func C) {initial : Value C}
    (hinitial : initial.isPlaceholder = false) :
    (Action.Builds watch w (Generic.map f (.task t)) (t.recipe.tryMap f) ∧
      Recipe.TriesToHand (S := S) watch (calling f [] .success) (keeping .failure) t.recipe
        (t.recipe.tryMap f) (t.recipe.map f)) ∧
    (Action.Builds watch w (Generic.bimap f g (.task t)) (t.recipe.tryBimap f g) ∧
      Recipe.TriesToHand (S := S) watch (calling f [] .success) (calling g [] .failure) t.recipe
        (t.recipe.tryBimap f g) (t.recipe.bimap f g)) ∧
    (Action.Builds watch w (Generic.foldl f initial (.task t)) (t.recipe.tryFold f initial) ∧
      Action.Builds watch w (Generic.foldr f initial (.task t)) (t.recipe.tryFold f initial) ∧
      ∀ fold ∈ [t.recipe.foldLeft f initial, t.recipe.foldRight f initial],
        Recipe.TriesToHand (S := S) watch (calling f [initial] .success)
          (settling ⟨.success, initial⟩) t.recipe (t.recipe.tryFold f initial) fold) ∧
    Action.Builds watch w (Generic.flatten (.task t)) t.recipe.flatten ∧
    (Action.Builds watch w (Generic.ap (.task t) (.task functions))
        (Recipe.ap t.recipe functions.recipe) ∧
      ∀ apply : Func C,
        (∀ (f : Func C) (w : World C S), ∃ id,
          (call apply [.func f]).Shows watch w [] (.ok (.task ⟨id, t.recipe.map f⟩)) w) →
        (Recipe.ap t.recipe functions.recipe).Tries (S := S) watch (functions.recipe.andThen apply)
          (Handing.startFunction t.recipe functions.recipe) functions.recipe.SucceedsWithFunctions
          (Handing.GivenByFunction S watch)) := by
  have htask : ∀ s : Task C, (Value.task s).isPlaceholder = false := fun _ => rfl
  have hfunc : ∀ s : Func C, (Value.func s).isPlaceholder = false := fun _ => rfl
  refine ⟨⟨?_, ?_⟩, ⟨?_, ?_⟩, ⟨?_, ?_, ?_⟩, ?_, ?_, ?_⟩
  · exact builds_method hwatch hprovides (m := .map) (by decide) rfl rfl (by simp [hfunc, htask]) rfl
  · exact Recipe.tries_chain (fun e => Step.answers_apply e .success .success f [])
      (fun e => Step.answers_keep e .failure) t.recipe
  · exact builds_method hwatch hprovides (m := .bimap) (by decide) rfl rfl (by simp [hfunc, htask]) rfl
  · exact Recipe.tries_chain (fun e => Step.answers_apply e .success .success f [])
      (fun e => Step.answers_apply e .failure .failure g []) t.recipe
  · exact builds_method hwatch hprovides (m := .foldl) (by decide) rfl rfl
      (by simp [hfunc, htask, hinitial]) rfl
  · exact builds_method hwatch hprovides (m := .foldr) (by decide) rfl rfl
      (by simp [hfunc, htask, hinitial]) rfl
  · have hfold : Recipe.TriesToHand (S := S) watch (calling f [initial] .success)
        (settling ⟨.success, initial⟩) t.recipe (t.recipe.tryFold f initial)
        (t.recipe.foldLeft f initial) :=
      Recipe.tries_chain (fun e => Step.answers_apply e .success .success f [initial])
        (fun e => Step.answers_settle e .failure ⟨.success, initial⟩) t.recipe
    simp only [List.forall_mem_cons, List.not_mem_nil, false_implies, implies_true, and_true]
    exact ⟨hfold, hfold⟩
  · exact builds_method hwatch hprovides (m := .flatten) (by decide) rfl rfl (by simp [htask]) rfl
  · exact builds_method hwatch hprovides (m := .ap) (by decide) rfl rfl (by simp [htask]) rfl
  · exact fun apply happly => Recipe.tries_ap t.recipe functions.recipe happly

end Observed

/-- The functions of a small program. -/
inductive Trial where
  /-- Ends with an error, and is watched. -/
  | refuse
  /-- Maps the function that it is called on over a task that succeeds at once. -/
  | mapOver

namespace Trial

/-- A function of the program as a value. -/
def func (c : Trial) : Func Trial := ⟨0, "trial", 1, .host c⟩

/-- The task that the functions are mapped over: it gives up its turn once. -/
def task : Recipe Trial := .turns 1 (.succeed (.bool true))

instance : Embedding Trial Unit where
  body
    | refuse, _ => .fail (.invalidArgument "refuse" "refused")
    | mapOver, args =>
      match argument args 0 with
      | .func f => return .task ⟨0, task.map f⟩
      | _ => return .nil

/-- Watches `refuse`. -/
def watched : Func Trial → Bool := Callable.isHost fun c => match c with
  | refuse => true
  | mapOver => false

/-- What `refuse` ends with. -/
def refusal : Error := .invalidArgument "refuse" "refused"

/-- The one call that is seen of a run in which `refuse` is called on the value of the task. -/
def refused : SeenCall Trial := ⟨refuse.func, [.bool true], .error refusal⟩

end Trial

/-- A function that ends with an error, mapped over a task, and applied to the task by another one that
succeeds with the function. -/
theorem task_methods_match_combinators_refused :
    let w : World Trial Unit := World.initial ()
    let functions : Recipe Trial := .succeed (.func Trial.refuse.func)
    (Action.Builds Trial.watched w (Generic.map Trial.refuse.func (.task ⟨0, Trial.task⟩))
        (Trial.task.tryMap Trial.refuse.func) ∧
      ∃ w', (Trial.task.tryMap Trial.refuse.func).run.Shows Trial.watched w [Trial.refused]
          (.ok (some ⟨.failure, failureValue Trial.refusal⟩)) w' ∧
        (Trial.task.map Trial.refuse.func).run.Shows Trial.watched w [Trial.refused]
          (.ok (some ⟨.success, failureValue Trial.refusal⟩)) w') ∧
    ∃ w', (Recipe.ap Trial.task functions).run.Shows Trial.watched w [Trial.refused]
        (.ok (some ⟨.failure, failureValue Trial.refusal⟩)) w' ∧
      (functions.andThen Trial.mapOver.func).run.Shows Trial.watched w [Trial.refused]
        (.ok (some ⟨.success, failureValue Trial.refusal⟩)) w' := by
  intro w functions
  have hprovides : ∀ m ∈ Family.task.methods, w.registry.Provides .task .task m :=
    fun m hm => (Registry.standard_standard firstFreeId).provides_family (v := .task ⟨0, Trial.task⟩) rfl hm
  obtain ⟨⟨hbuilds, hmap⟩, -, -, -, -, hap⟩ := task_methods_match_combinators
    (fun m g => Callable.isHost_of_implements _ g) hprovides ⟨0, Trial.task⟩ ⟨1, functions⟩
    Trial.refuse.func Trial.refuse.func (show Value.nil.isPlaceholder = false from rfl)
  refine ⟨⟨hbuilds, _, ⟨9, rfl⟩, ?_⟩, _, ⟨9, rfl⟩, ?_⟩
  · obtain ⟨r', hrun, -⟩ := hmap.run w trivial _ _ _ ⟨9, rfl⟩
    obtain ⟨-, rfl, -⟩ := hrun.unique ⟨9, rfl⟩
    exact hrun
  · have happly : ∀ (f : Func Trial) (w : World Trial Unit), ∃ id,
        (call Trial.mapOver.func [.func f]).Shows Trial.watched w []
          (.ok (.task ⟨id, Trial.task.map f⟩)) w :=
      fun f w => ⟨0, 1, rfl⟩
    obtain ⟨r', hrun, -⟩ := (hap Trial.mapOver.func happly).run w
      (Recipe.succeedsWithFunctions_succeed _ w) _ _ _ ⟨9, rfl⟩
    obtain ⟨-, rfl, -⟩ := hrun.unique ⟨9, rfl⟩
    exact hrun

end DynamicDispatch
