import DynamicDispatch.Proofs.Task.Parallel
import DynamicDispatch.Proofs.Task.Turns

/-!
# The course of a task

A task that runs alone goes its course: it is started, and then its schedule is given one turn after the
other until nothing gets any further. Meanwhile others may take identities, so that each step may begin
with any number of them taken. A task settles when every such course comes to an end with an outcome.
Where nothing gets any further, a turn changes nothing that a task could notice.
-/

namespace DynamicDispatch

open DynamicDispatch.Action (shows_bind_pure_iff shows_pure)

variable {C S : Type}

/-- Where a task is in its course: it has not been started, or its schedule is given turns. -/
inductive Course (C : Type) where
  | ahead (task : Recipe C)
  | under (schedule : Schedule C)

/-- The next step of a course. -/
def Course.step : Course C → Action C S (Option (Outcome (Value C)) ⊕ Course C)
  | .ahead task => do return .inr (.under (.ofRun (← task.start)))
  | .under s => do return (← s.step).map id .under

/-- The children that a task has started in its course. -/
def Course.children : Course C → List (Child C)
  | .ahead _ => []
  | .under s => s.waiting ++ s.turned

/-- The world with the identities below a number taken. -/
def World.taken (w : World C S) (n : Nat) : World C S := { w with nextId := n }

/-- A task that goes its course alone, with the world that it has made for itself. -/
structure Strand (C S : Type) where
  course : Course C
  world : World C S

section Congruence

/-- Whether a run gets further depends on the settled cells and on what is found in mailboxes. -/
theorem Run.canAdvance_congr (w w' : World C S) (hcells : w'.cells = w.cells)
    (hboxes : ∀ box, w'.mailboxes.get? box = w.mailboxes.get? box) (run : Run C) :
    run.canAdvance w' = run.canAdvance w := by
  induction run with
  | chained first _ _ ih => exact ih
  | awaiting cell => simp only [Run.canAdvance, hcells]
  | joining box join => simp only [Run.canAdvance, hboxes]
  | _ => rfl

/-- Taking identities gets nothing further. -/
theorem Schedule.canAdvance_taken (w : World C S) (n : Nat) (s : Schedule C) :
    s.canAdvance (w.taken n) = s.canAdvance w := by
  have hrun : Run.canAdvance (w.taken n) = Run.canAdvance (C := C) w :=
    funext (Run.canAdvance_congr w (w.taken n) rfl fun _ => rfl)
  have hmain : ∀ t : Turn C, t.canAdvance (w.taken n) = t.canAdvance w
    | .settled _ => rfl
    | .pending run => congrFun hrun run
  rw [Schedule.canAdvance, Schedule.canAdvance, hmain, hrun]

end Congruence

variable [Embedding C S] {watch : Func C → Bool}

/-- Driving that is over leaves the world as it is. -/
theorem Schedule.eq_of_shows_step_over {s : Schedule C} {w w' : World C S} {calls : List (SeenCall C)}
    {o : Option (Outcome (Value C))} (h : s.step.Shows watch w calls (.ok (.inl o)) w') : w' = w := by
  obtain ⟨main, _ | ⟨child, waiting⟩, turned⟩ := s
  · cases hadvance : Schedule.canAdvance w ⟨main, [], turned⟩ with
    | false => exact ((shows_step_nil_over_iff hadvance).mp h).2.2
    | true => obtain ⟨_ | _, -, hr⟩ := (shows_step_nil_iff hadvance).mp h <;> cases hr
  · obtain ⟨_ | _, -, hr⟩ := shows_step_cons_iff.mp h <;> cases hr

namespace Course

variable {w w' : World C S} {calls : List (SeenCall C)} {s : Schedule C}

/-- A course goes on as long as the schedule does. -/
theorem shows_under_next_iff {c : Course C} :
    (under s).step.Shows watch w calls (.ok (.inr c)) w' ↔
      ∃ s', c = .under s' ∧ s.step.Shows watch w calls (.ok (.inr s')) w' := by
  rw [step, shows_bind_pure_iff]
  constructor
  · rintro ⟨e | o | s', hstep, hr⟩ <;> cases hr
    exact ⟨s', rfl, hstep⟩
  · rintro ⟨s', rfl, hstep⟩
    exact ⟨_, hstep, rfl⟩

/-- A course is over when driving the schedule is. -/
theorem shows_under_over_iff {o : Option (Outcome (Value C))} :
    (under s).step.Shows watch w calls (.ok (.inl o)) w' ↔
      s.step.Shows watch w calls (.ok (.inl o)) w' := by
  rw [step, shows_bind_pure_iff]
  constructor
  · rintro ⟨e | o | s', hstep, hr⟩ <;> cases hr
    exact hstep
  · exact fun hstep => ⟨_, hstep, rfl⟩

/-- What is seen of the course while children wait for their turns. -/
theorem shows_under_cons_iff {main : Turn C} {child : Child C} {waiting turned : List (Child C)}
    {r : Option (Outcome (Value C)) ⊕ Course C} :
    (under ⟨main, child :: waiting, turned⟩).step.Shows watch w calls (.ok r) w' ↔
      ∃ left started, (Schedule.childTurn child).Shows watch w calls (.ok (left, started)) w' ∧
        r = .inr (.under ⟨main, waiting ++ started, turned ++ left.toList⟩) := by
  rw [step, shows_bind_pure_iff]
  constructor
  · rintro ⟨r', hstep, hr⟩
    obtain ⟨e | ⟨left, started⟩, hturn, rfl⟩ := Schedule.shows_step_cons_iff.mp hstep <;> cases hr
    exact ⟨left, started, hturn, rfl⟩
  · rintro ⟨left, started, hturn, rfl⟩
    exact ⟨_, Schedule.shows_step_cons_iff.mpr ⟨_, hturn, rfl⟩, rfl⟩

/-- What is seen of the course when a lap begins. -/
theorem shows_under_lap_iff {main : Turn C} {turned : List (Child C)}
    {r : Option (Outcome (Value C)) ⊕ Course C}
    (hadvance : Schedule.canAdvance w ⟨main, [], turned⟩ = true) :
    (under ⟨main, [], turned⟩).step.Shows watch w calls (.ok r) w' ↔
      ∃ main' started, (Schedule.mainTurn main).Shows watch w calls (.ok (main', started)) w' ∧
        r = .inr (.under ⟨main', turned ++ started, []⟩) := by
  rw [step, shows_bind_pure_iff]
  constructor
  · rintro ⟨r', hstep, hr⟩
    obtain ⟨e | ⟨main', started⟩, hturn, rfl⟩ := (Schedule.shows_step_nil_iff hadvance).mp hstep <;>
      cases hr
    exact ⟨main', started, hturn, rfl⟩
  · rintro ⟨main', started, hturn, rfl⟩
    exact ⟨_, (Schedule.shows_step_nil_iff hadvance).mpr ⟨_, hturn, rfl⟩, rfl⟩

/-- A course begins with starting the task. -/
theorem shows_ahead_iff {t : Recipe C} {r : Except Error (Option (Outcome (Value C)) ⊕ Course C)} :
    (ahead t).step.Shows watch w calls r w' ↔
      ∃ r', t.start.Shows watch w calls r' w' ∧ r = r'.map fun run => .inr (.under (.ofRun run)) :=
  shows_bind_pure_iff

end Course

namespace Strand

/-- One step of a course, after others have taken identities. -/
def Next (watch : Func C → Bool) (x : Strand C S) (calls : List (SeenCall C)) (y : Strand C S) : Prop :=
  ∃ n, x.world.nextId ≤ n ∧
    x.course.step.Shows watch (x.world.taken n) calls (.ok (.inr y.course)) y.world

/-- Some steps of a course, one at least. -/
inductive Walks (watch : Func C → Bool) : Strand C S → List (SeenCall C) → Strand C S → Prop
  | one {x y : Strand C S} {calls : List (SeenCall C)} (h : x.Next watch calls y) :
      Walks watch x calls y
  | more {x y z : Strand C S} {calls later : List (SeenCall C)} (h : x.Next watch calls y)
      (rest : Walks watch y later z) : Walks watch x (calls ++ later) z

/-- The rest of a course, to the strand in which it is over with an outcome. -/
inductive Goes (watch : Func C → Bool) :
    Strand C S → List (SeenCall C) → Outcome (Value C) → Strand C S → Prop
  | over {x : Strand C S} {n : Nat} {calls : List (SeenCall C)} {o : Outcome (Value C)}
      {u : World C S} (hn : x.world.nextId ≤ n)
      (h : x.course.step.Shows watch (x.world.taken n) calls (.ok (.inl (some o))) u) :
      Goes watch x calls o x
  | next {x y z : Strand C S} {calls later : List (SeenCall C)} {o : Outcome (Value C)}
      (h : x.Next watch calls y) (rest : Goes watch y later o z) : Goes watch x (calls ++ later) o z

/-- However many identities others take in between, the course comes to its end with an outcome. -/
inductive Settles (watch : Func C → Bool) : Strand C S → Prop
  | of {x : Strand C S} (ends : ∀ n, x.world.nextId ≤ n → ∃ calls r u,
      x.course.step.Shows watch (x.world.taken n) calls (.ok r) u ∧ r ≠ .inl none)
      (rest : ∀ calls y, x.Next watch calls y → Settles watch y) : Settles watch x

variable {x y z : Strand C S} {calls later : List (SeenCall C)} {o : Outcome (Value C)}

/-- The next step of a settling course. -/
theorem Settles.ends (h : x.Settles watch) {n : Nat} (hn : x.world.nextId ≤ n) : ∃ calls r u,
    x.course.step.Shows watch (x.world.taken n) calls (.ok r) u ∧ r ≠ .inl none := by
  cases h with
  | of ends _ => exact ends n hn

/-- What is left of a settling course after a step settles. -/
theorem Settles.next (h : x.Settles watch) (hnext : x.Next watch calls y) : y.Settles watch := by
  cases h with
  | of _ rest => exact rest calls y hnext

/-- A settling course does not go on for ever. -/
theorem Settles.acc (h : x.Settles watch) :
    Acc (fun y x : Strand C S => ∃ calls, x.Walks watch calls y) x := by
  induction h with
  | of _ _ ih =>
    refine Acc.intro _ ?_
    rintro y ⟨calls, hwalks⟩
    cases hwalks with
    | one hnext => exact ih _ _ hnext
    | more hnext rest => exact (ih _ _ hnext).inv ⟨_, rest⟩

/-- What a course shows to its end begins with what some steps of it show. -/
theorem Walks.goes (h : x.Walks watch calls y) (hgoes : y.Goes watch later o z) :
    x.Goes watch (calls ++ later) o z := by
  induction h with
  | one hnext => exact .next hnext hgoes
  | more hnext _ ih =>
    rw [List.append_assoc]
    exact .next hnext (ih hgoes)

/-- A schedule whose course settles is driven to an outcome. -/
theorem Settles.runs {s : Schedule C} {w : World C S} (h : Settles watch ⟨.under s, w⟩) :
    ∃ calls o w', Schedule.Runs watch s w calls (.ok (some o)) w' := by
  generalize hx : (⟨.under s, w⟩ : Strand C S) = x at h
  induction h generalizing s w with
  | of ends _ ih =>
    subst hx
    obtain ⟨calls, r, u, hstep, hr⟩ := ends w.nextId (Nat.le_refl _)
    rcases r with (_ | o) | c
    · exact absurd rfl hr
    · exact ⟨calls, o, u, .ended (Course.shows_under_over_iff.mp hstep)⟩
    · obtain ⟨s', rfl, hs⟩ := Course.shows_under_next_iff.mp hstep
      obtain ⟨later, o, w', hruns⟩ := ih calls ⟨_, u⟩ ⟨_, Nat.le_refl _, hstep⟩ rfl
      exact ⟨_, o, w', .turn hs hruns⟩

/-- A task whose course settles is run on its own to an outcome. -/
theorem Settles.run {t : Recipe C} {w : World C S} (h : Settles watch ⟨.ahead t, w⟩) :
    ∃ calls o w', t.run.Shows watch w calls (.ok (some o)) w' := by
  obtain ⟨calls, r, u, hstep, -⟩ := h.ends (Nat.le_refl _)
  obtain ⟨e | run, hstart, hr⟩ := Course.shows_ahead_iff.mp hstep <;> cases hr
  have hnext : Next watch ⟨.ahead t, w⟩ calls ⟨.under (.ofRun run), u⟩ :=
    ⟨w.nextId, Nat.le_refl _, hstep⟩
  obtain ⟨later, o, w', hruns⟩ := (h.next hnext).runs
  exact ⟨_, o, w', Schedule.shows_run_iff.mpr (Or.inl ⟨_, _, _, _, hstart, hruns, rfl⟩)⟩

/-- A schedule that is driven to an outcome goes its course, of which one sees the same and which leaves the
same world. -/
theorem goes_of_runs {s : Schedule C} {w w' : World C S}
    (h : Schedule.Runs watch s w calls (.ok (some o)) w') :
    ∃ y, Goes watch ⟨.under s, w⟩ calls o y ∧ y.world = w' := by
  generalize hr : (.ok (some o) : Except Error (Option (Outcome (Value C)))) = r at h
  induction h with
  | ended hstep =>
    cases hr
    exact ⟨_, .over (Nat.le_refl _) (Course.shows_under_over_iff.mpr hstep),
      (Schedule.eq_of_shows_step_over hstep).symm⟩
  | fails => cases hr
  | @turn s s' w w₁ _ _ _ _ hstep _ ih =>
    have hnext : Next watch ⟨.under s, w⟩ _ ⟨.under s', w₁⟩ :=
      ⟨w.nextId, Nat.le_refl _, Course.shows_under_next_iff.mpr ⟨_, rfl, hstep⟩⟩
    obtain ⟨y, hgoes, hy⟩ := ih hr
    exact ⟨y, .next hnext hgoes, hy⟩

/-- A task that is run on its own to an outcome goes its course, of which one sees the same and which leaves
the same world. -/
theorem goes_of_run {t : Recipe C} {w w' : World C S}
    (h : t.run.Shows watch w calls (.ok (some o)) w') :
    ∃ y, Goes watch ⟨.ahead t, w⟩ calls o y ∧ y.world = w' := by
  rcases Schedule.shows_run_iff.mp h with ⟨calls₁, run, w₁, later, hstart, hruns, rfl⟩ | ⟨e, -, hr⟩
  · have hnext : Next watch ⟨.ahead t, w⟩ calls₁ ⟨.under (.ofRun run), w₁⟩ :=
      ⟨w.nextId, Nat.le_refl _, Course.shows_ahead_iff.mpr ⟨_, hstart, rfl⟩⟩
    obtain ⟨y, hgoes, hy⟩ := goes_of_runs hruns
    exact ⟨y, .next hnext hgoes, hy⟩
  · cases hr

/-- A strand whose schedule has had its lap and in which nothing gets any further. -/
def Idle (x : Strand C S) : Prop :=
  ∃ s, x.course = .under s ∧ s.waiting = [] ∧ s.canAdvance x.world = false

/-- An idle strand is over. -/
theorem Idle.over (watch : Func C → Bool) (h : x.Idle) (n : Nat) : ∃ s, x.course = .under s ∧
    x.course.step.Shows watch (x.world.taken n) [] (.ok (.inl s.main.outcome?)) (x.world.taken n) := by
  obtain ⟨⟨main, _, turned⟩, hcourse, rfl, hadvance⟩ := h
  refine ⟨_, hcourse, ?_⟩
  rw [hcourse, Course.shows_under_over_iff]
  rw [← Schedule.canAdvance_taken _ n] at hadvance
  exact (Schedule.shows_step_nil_over_iff hadvance).mpr ⟨rfl, rfl, rfl⟩

/-- The main run of an idle strand that settles has settled. -/
theorem Idle.main_settled (h : x.Idle) (hsettles : x.Settles watch) :
    ∃ o s, x.course = .under s ∧ s.main = .settled o := by
  obtain ⟨s, hcourse, hover⟩ := h.over watch x.world.nextId
  obtain ⟨_, r, _, hstep, hr⟩ := hsettles.ends (Nat.le_refl _)
  obtain ⟨-, heq, -⟩ := hstep.unique hover
  cases hmain : s.main with
  | settled o => exact ⟨o, s, hcourse, hmain⟩
  | pending run =>
    rw [hmain] at heq
    exact absurd (Except.ok.inj heq) hr

end Strand

/-- A mailbox is read without anything being seen. -/
theorem shows_mailbox (watch : Func C → Bool) {w : World C S} {box : Nat} {m : Mailbox C}
    (hmailbox : w.mailboxes.get? box = some m) : (mailbox box).Shows watch w [] (.ok m) w := by
  refine ⟨0, ?_⟩
  change some (Sight.mk [] (.ok ((w.mailboxes.get? box).getD ⟨[], 0⟩)) w) = _
  rw [hmailbox, Option.getD_some]

/-- A turn of a parallel task empties its mailbox and ends with what the reports lead to. -/
theorem Join.shows_read (watch : Func C → Bool) {w : World C S} {box : Nat} {m : Mailbox C} (j : Join C)
    (hmailbox : w.mailboxes.get? box = some m) :
    (Run.read box j).Shows watch w [] (.ok (turn box (j.drain m.senders m.reports)))
      { w with mailboxes := w.mailboxes.insert box ⟨[], m.senders⟩ } := by
  rw [Run.read, (shows_mailbox watch hmailbox).bind_iff]
  cases j.drain m.senders m.reports <;> exact ⟨0, rfl⟩

/-- A run that would not get further is left as it is by a turn, and so is what is found in mailboxes. -/
theorem Run.shows_poll_of_not_canAdvance (watch : Func C → Bool) {w : World C S} {run : Run C}
    (h : run.canAdvance w = false) : ∃ boxes, (∀ box, boxes.get? box = w.mailboxes.get? box) ∧
      run.poll.Shows watch w [] (.ok (.pending run)) { w with mailboxes := boxes } := by
  induction run with
  | settled | turns | opening => cases h
  | never => exact ⟨w.mailboxes, fun _ => rfl, 0, rfl⟩
  | awaiting cell =>
    have hcell : w.cells.get? cell = none := by simpa [canAdvance] using h
    refine ⟨w.mailboxes, fun _ => rfl, ?_⟩
    rw [poll, Schedule.shows_world_bind_iff, hcell]
    exact shows_pure _ _
  | chained first onSuccess onFailure ih =>
    obtain ⟨boxes, hboxes, hpoll⟩ := ih h
    exact ⟨boxes, hboxes, hpoll.bind (shows_pure _ _)⟩
  | joining box join =>
    rw [canAdvance] at h
    cases hmailbox : w.mailboxes.get? box with
    | none => simp [hmailbox] at h
    | some m =>
      obtain ⟨reports, senders⟩ := m
      simp only [hmailbox, Bool.or_eq_false_iff, Bool.not_eq_false', beq_eq_false_iff_ne,
        List.isEmpty_iff] at h
      obtain ⟨⟨rfl, hsenders⟩, hmissing⟩ := h
      refine ⟨w.mailboxes.insert box ⟨[], senders⟩, fun other => ?_, ?_⟩
      · rw [Table.get?_insert]
        split
        · next heq => rw [← heq, hmailbox]
        · rfl
      · have hread := Join.shows_read watch join hmailbox
        rwa [Join.drain, if_neg hmissing, if_neg hsenders] at hread

namespace Schedule

variable {w w₁ : World C S} {child : Child C} {calls : List (SeenCall C)}

/-- The turn of a child whose run stays pending. -/
theorem shows_childTurn_of_pending {run : Run C}
    (hpoll : child.run.poll.Shows watch w calls (.ok (.pending run)) w₁) :
    (childTurn child).Shows watch w calls (.ok (some { child with run }, w₁.started))
      { w₁ with started := [] } := by
  rw [← List.append_nil calls]
  exact hpoll.bind (shows_bind_pure_iff.mpr ⟨_, shows_takeStarted_iff.mpr ⟨rfl, rfl, rfl⟩, rfl⟩)

/-- The turn of a child whose run settles: it reports, so that its parent waits for one child less. -/
theorem shows_childTurn_of_settled {o : Outcome (Value C)}
    {reports : List (Nat × Outcome (Value C))} {senders : Nat}
    (hpoll : child.run.poll.Shows watch w calls (.ok (.settled o)) w₁)
    (hmailbox : w₁.mailboxes.get? child.mailbox = some ⟨reports, senders⟩) :
    (childTurn child).Shows watch w calls (.ok (none, w₁.started))
      { w₁ with
        started := []
        mailboxes := w₁.mailboxes.insert child.mailbox
          ⟨reports ++ [(child.position, o)], senders - 1⟩ } := by
  have hreport : (report child o).Shows watch w₁ [] (.ok ())
      { w₁ with
        mailboxes := w₁.mailboxes.insert child.mailbox
          ⟨reports ++ [(child.position, o)], senders - 1⟩ } := by
    rw [report, (shows_mailbox watch hmailbox).bind_iff]
    exact ⟨0, rfl⟩
  rw [← List.append_nil calls]
  exact hpoll.bind (hreport.bind_iff.mpr
    (shows_bind_pure_iff.mpr ⟨_, shows_takeStarted_iff.mpr ⟨rfl, rfl, rfl⟩, rfl⟩))

/-- A child that would not get further is left as it is by its turn. -/
theorem shows_childTurn_of_not_canAdvance (watch : Func C → Bool)
    (h : child.run.canAdvance w = false) (hstarted : w.started = []) :
    ∃ boxes, (∀ box, boxes.get? box = w.mailboxes.get? box) ∧
      (childTurn child).Shows watch w [] (.ok (some child, [])) { w with mailboxes := boxes } := by
  obtain ⟨boxes, hboxes, hpoll⟩ := Run.shows_poll_of_not_canAdvance watch h
  have hturn := shows_childTurn_of_pending hpoll
  simp only [hstarted] at hturn
  exact ⟨boxes, hboxes, hstarted ▸ hturn⟩

end Schedule

end DynamicDispatch
