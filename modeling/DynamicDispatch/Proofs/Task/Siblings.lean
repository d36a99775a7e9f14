import DynamicDispatch.Proofs.Task.Carrying
import Mathlib.Data.List.Induction

/-!
# Siblings in a parallel task

A run of a parallel task starts each of its children once, in order, before it gives up its first turn. If
the effects of the children do not depend on each other's, then each of them is carried through to its end,
with what it would show alone, whether or not the parallel task has settled before.
-/

namespace DynamicDispatch

open DynamicDispatch.Action (shows_bind_pure_iff shows_pure)

variable {C S : Type}

/-- A child that a parallel task has started: the task, what was seen of starting it, its run, and the
world that starting it has made when nobody else does anything. -/
structure Begun (C S : Type) where
  task : Recipe C
  calls : List (SeenCall C)
  run : Run C
  world : World C S

/-- What is ahead of a child that was started. -/
def Begun.strand (b : Begun C S) : Strand C S := ⟨.under (.ofRun b.run), b.world⟩

/-- What belongs to one owner among children each of which is its own. -/
theorem ownedBy_mapIdx {α : Type} (f : Nat → α → Child C) (i : Nat) (l : List α) :
    ownedBy i (l.mapIdx fun j a => (j, f j a)) = (l[i]?.map (f i)).toList := by
  induction l using List.reverseRecOn with
  | nil => rfl
  | append_singleton l a ih =>
    rw [List.mapIdx_concat, ownedBy_append, ih, List.getElem?_append]
    by_cases hi : i < l.length
    · rw [if_pos hi, ownedBy_cons_ne (Nat.ne_of_gt hi), ownedBy_nil, List.append_nil]
    · rw [if_neg hi, List.getElem?_eq_none (Nat.le_of_not_lt hi)]
      by_cases heq : l.length = i
      · subst heq
        simp
      · have hlt : [a].length ≤ i - l.length := by
          rw [List.length_singleton]
          omega
        rw [ownedBy_cons_ne heq, List.getElem?_eq_none hlt]
        rfl

variable [Embedding C S]

/-- The child was started, with what starting its task shows alone after others have taken identities. -/
def Begun.From (watch : Func C → Bool) (w : World C S) (b : Begun C S) : Prop :=
  ∃ n, w.nextId ≤ n ∧ b.task.start.Shows watch (w.taken n) b.calls (.ok b.run) b.world

variable {watch : Func C → Bool} {box : Nat} {agree : Nat → Set Nat → Strand C S → World C S → Prop}
  {w w₀ w' : World C S}

/-- A task that was started begins its course so. -/
theorem Begun.From.next {b : Begun C S} (h : b.From watch w) :
    Strand.Next watch ⟨.ahead b.task, w⟩ b.calls b.strand := by
  obtain ⟨n, hn, hstart⟩ := h
  exact ⟨n, hn, Course.shows_ahead_iff.mpr ⟨_, hstart, rfl⟩⟩

omit [Embedding C S] in
/-- When a parallel task has taken an identity for its mailbox, its children are apart: they have taken
none. -/
theorem Apart.of_opening {children : List (Recipe C)}
    (hagree : ∀ i t, children[i]? = some t → agree i ∅ ⟨.ahead t, w⟩ (w.opening children.length))
    (hstarted : w.started = []) :
    Apart w.nextId agree (children.map fun t => ⟨.ahead t, w⟩) (w.opening children.length) := by
  refine ⟨⟨fun _ => ∅, fun {i x} hi => ?_, fun _ _ _ => Set.disjoint_empty _⟩, hstarted⟩
  rw [List.getElem?_map] at hi
  obtain ⟨t, ht, rfl⟩ := Option.map_eq_some_iff.mp hi
  exact ⟨hagree i t ht, Nat.lt_succ_self _, Nat.le_succ _, Set.empty_subset _⟩

/-- The tasks are started one after the other. -/
theorem Apart.start (hind : Independent watch box agree) {tasks : List (Recipe C)}
    (hsettles : ∀ t ∈ tasks, Strand.Settles watch ⟨.ahead t, w₀⟩) {others : List (Strand C S)}
    (h : Apart box agree (others ++ tasks.map fun t => ⟨.ahead t, w₀⟩) w) :
    ∃ (begun : List (Begun C S)) (w' : World C S), begun.map (·.task) = tasks ∧
      (tasks.mapM Recipe.start).Shows watch w (begun.flatMap (·.calls)) (.ok (begun.map (·.run))) w' ∧
      Apart box agree (others ++ begun.map (·.strand)) w' ∧
      w'.mailboxes.get? box = w.mailboxes.get? box ∧ ∀ b ∈ begun, b.From watch w₀ := by
  induction tasks generalizing others w with
  | nil => exact ⟨[], w, rfl, shows_pure _ _, h, rfl, by simp⟩
  | cons t tasks ih =>
    have hi : (others ++ (t :: tasks).map fun t => (⟨.ahead t, w₀⟩ : Strand C S))[others.length]? =
        some ⟨.ahead t, w₀⟩ := by simp
    have hn := h.nextId_le hi
    obtain ⟨calls, r, u, hstep, -⟩ := (hsettles t List.mem_cons_self).ends hn
    obtain ⟨e | run, hstart, hr⟩ := Course.shows_ahead_iff.mp hstep <;> cases hr
    obtain ⟨w₁, hshows, hapart, hleaves⟩ := h.next hind hi hstep
    obtain ⟨e | run', hstart', hr⟩ := Course.shows_ahead_iff.mp hshows <;> cases hr
    have hset : (others ++ (t :: tasks).map fun t => (⟨.ahead t, w₀⟩ : Strand C S)).set others.length
        ⟨.under (.ofRun run), u⟩ =
          others ++ [⟨.under (.ofRun run), u⟩] ++ tasks.map fun t => ⟨.ahead t, w₀⟩ := by simp
    rw [hset] at hapart
    obtain ⟨begun, w', htasks, hrest, hapart', hmailbox, hfrom⟩ :=
      ih (fun t ht => hsettles t (List.mem_cons_of_mem _ ht)) hapart
    refine ⟨⟨t, calls, run, u⟩ :: begun, w', ?_, ?_, ?_, hmailbox.trans hleaves.mailbox, ?_⟩
    · rw [List.map_cons, htasks]
    · rw [List.mapM_cons, List.flatMap_cons]
      exact hstart'.bind (shows_bind_pure_iff.mpr ⟨_, hrest, rfl⟩)
    · rw [List.append_assoc] at hapart'
      exact hapart'
    · intro b hb
      rcases List.mem_cons.mp hb with rfl | hb
      · exact ⟨w.nextId, hn, hstart⟩
      · exact hfrom b hb

/-- The first turn of a parallel task starts all of its children, shows what starting them shows, and ends
with what an empty mailbox leads to. -/
theorem Schedule.shows_mainTurn_opening {children : List (Recipe C)} {calls : List (SeenCall C)}
    {runs : List (Run C)}
    (hstart : (children.mapM Recipe.start).Shows watch (w.opening children.length) calls (.ok runs) w')
    (hstarted : w'.started = [])
    (hmailbox : w'.mailboxes.get? w.nextId = some ⟨[], children.length⟩) :
    (mainTurn (.pending (.opening children))).Shows watch w calls
      (.ok (Join.turn w.nextId ((Join.start children.length).drain children.length []),
        runs.mapIdx fun i run => ⟨w.nextId, i, run⟩))
      { w' with mailboxes := w'.mailboxes.insert w.nextId ⟨[], children.length⟩ } := by
  obtain ⟨registry, multimethods, cells, boxes, started, nextId, host⟩ := w'
  obtain rfl : started = [] := hstarted
  have hmint : (Action.minting newId).Shows watch w [] (.ok w.nextId)
      { w with nextId := w.nextId + 1 } := ⟨0, rfl⟩
  have hset : (setMailbox w.nextId ⟨[], children.length⟩).Shows watch
      { w with nextId := w.nextId + 1 } [] (.ok ()) (w.opening children.length) := ⟨0, rfl⟩
  have hchildren : (Run.startChildren w.nextId children).Shows watch (w.opening children.length) calls
      (.ok ()) ⟨registry, multimethods, cells, boxes,
        runs.mapIdx fun i run => ⟨w.nextId, i, run⟩, nextId, host⟩ := by
    rw [← List.append_nil calls]
    exact hstart.bind ⟨0, rfl⟩
  have hread := Join.shows_read watch (w := ⟨registry, multimethods, cells, boxes,
    runs.mapIdx fun i run => ⟨w.nextId, i, run⟩, nextId, host⟩) (.start children.length) hmailbox
  have hpoll : (Run.opening children).poll.Shows watch w (calls ++ []) _ _ :=
    hmint.bind_iff.mpr (hset.bind_iff.mpr (hchildren.bind hread))
  rw [List.append_nil] at hpoll
  exact shows_mainTurn_iff.mpr (Or.inl ⟨_, _, hpoll, rfl, rfl⟩)

/-- Children that were just started are carried. -/
theorem Carrying.of_begun {begun : List (Begun C S)} {main : Turn C}
    (hapart : Apart box agree (begun.map (·.strand)) w)
    (hsettles : ∀ b ∈ begun, b.strand.Settles watch)
    (hparent : ∀ {run}, main = .pending run → ∃ join, run = .joining box join)
    (hmailbox : w.mailboxes.get? box = some ⟨[], begun.length⟩) :
    Carrying watch box agree (begun.map (·.strand)) main
      (begun.mapIdx fun i b => (i, ⟨box, i, b.run⟩)) [] w := by
  have hbegun : ∀ {i : Nat} {x : Strand C S}, (begun.map (·.strand))[i]? = some x →
      ∃ b, begun[i]? = some b ∧ x = b.strand := by
    intro i x hi
    rw [List.getElem?_map] at hi
    obtain ⟨b, hb, rfl⟩ := Option.map_eq_some_iff.mp hi
    exact ⟨b, hb, rfl⟩
  refine ⟨hapart, ?_, ?_, ?_, ?_, hparent, [], ?_⟩
  · intro i x hi
    obtain ⟨b, hb, rfl⟩ := hbegun hi
    exact hsettles b (List.mem_of_getElem? hb)
  · intro i x hi child hchild
    obtain ⟨b, -, rfl⟩ := hbegun hi
    exact absurd hchild List.not_mem_nil
  · intro i x hi
    obtain ⟨b, hb, rfl⟩ := hbegun hi
    rw [ownedBy_mapIdx fun i b => ⟨box, i, Begun.run b⟩, hb]
    exact .before rfl (.inl rfl)
  · intro p hp
    rw [List.append_nil] at hp
    obtain ⟨i, hi, rfl⟩ := List.mem_mapIdx.mp hp
    simpa using hi
  · rw [hmailbox, List.countP_eq_length.mpr, List.length_map]
    intro x hx
    obtain ⟨b, -, rfl⟩ := List.mem_map.mp hx
    rfl

/-- What became of the children of a parallel task that was run on its own, given the children as they were
started and the turns that were taken on their behalf. -/
structure CarriedThrough (watch : Func C → Bool)
    (agree : Nat → Set Nat → Strand C S → World C S → Prop) (children : List (Recipe C)) (w : World C S)
    (begun : List (Begun C S)) (turns : List (TakenTurn C)) (o : Outcome (Value C)) (w' : World C S) :
    Prop where
  /-- Each child was started once, in order. -/
  tasks : begun.map (·.task) = children
  /-- The first turn of the parallel task is to start them, and after it they take their turns. -/
  laps : ∃ main w₁, (Schedule.mainTurn (.pending (.opening children))).Shows watch w
      (begun.flatMap (·.calls)) (.ok (main, begun.mapIdx fun i b => ⟨w.nextId, i, b.run⟩)) w₁ ∧
    Carries watch main (begun.mapIdx fun i b => (i, ⟨w.nextId, i, b.run⟩)) [] w₁ turns (some o) w'
  /-- Nothing else is seen of the run, which comes to its end with an outcome. -/
  run : (Recipe.parallel children).run.Shows watch w
    (begun.flatMap (·.calls) ++ turns.flatMap (·.calls)) (.ok (some o)) w'
  /-- What is seen on behalf of a child, from its start on, is what is seen of its task alone, to the end,
  and the world that is left agrees with the one that the task has made alone. -/
  alone : ∀ {i b}, begun[i]? = some b → b.From watch w ∧
    ∃ o y, Strand.Goes watch ⟨.ahead b.task, w⟩ (b.calls ++ TakenTurn.callsOf i turns) o y ∧
      ∃ own, Agreeing w.nextId agree i own y w'
  /-- The run of a child comes to its end with exactly one of the turns. -/
  once : ∀ i < children.length, TakenTurn.endings w.nextId i turns = 1

/-- The children of a parallel task whose effects do not depend on each other's, and which settle when they
run alone, are started in order and carried through, whatever becomes of the parallel task meanwhile. The
task is run from a world in which the scheduler has taken over all children that were started before. Its
children find a world in which it has taken an identity for its mailbox; they have taken none. -/
theorem parallel_carries_children_through {children : List (Recipe C)}
    (hind : Independent watch w.nextId agree)
    (hagree : ∀ i t, children[i]? = some t → agree i ∅ ⟨.ahead t, w⟩ (w.opening children.length))
    (hsettles : ∀ t ∈ children, Strand.Settles watch ⟨.ahead t, w⟩) (hstarted : w.started = []) :
    ∃ begun turns o w', CarriedThrough watch agree children w begun turns o w' := by
  have hopening : Apart w.nextId agree ([] ++ children.map fun t => ⟨.ahead t, w⟩)
      (w.opening children.length) := .of_opening hagree hstarted
  obtain ⟨begun, w₁, htasks, hstart, hapart, hmailbox, hfrom⟩ := hopening.start hind hsettles
  have hbox : w₁.mailboxes.get? w.nextId = some ⟨[], children.length⟩ :=
    hmailbox.trans (Table.get?_insert_self _ _ _)
  have hturn := Schedule.shows_mainTurn_opening hstart hapart.started hbox
  let main : Turn C := Join.turn w.nextId ((Join.start children.length).drain children.length [])
  have hlength : begun.length = children.length := by rw [← htasks, List.length_map]
  have hruns : (begun.map (·.run)).mapIdx (fun i run => (⟨w.nextId, i, run⟩ : Child C)) =
      begun.mapIdx fun i b => ⟨w.nextId, i, b.run⟩ :=
    List.mapIdx_eq_iff.mpr fun i => by simp [Function.comp_def]
  have hchildren : (begun.mapIdx fun i b => (i, (⟨w.nextId, i, b.run⟩ : Child C))).map (·.2) =
      begun.mapIdx fun i b => ⟨w.nextId, i, b.run⟩ :=
    (List.mapIdx_eq_iff.mpr fun i => by simp [Function.comp_def]).symm
  rw [hruns] at hturn
  have hcarrying : Carrying watch w.nextId agree (begun.map (·.strand)) main
      (begun.mapIdx fun i b => (i, ⟨w.nextId, i, b.run⟩)) []
      { w₁ with mailboxes := w₁.mailboxes.insert w.nextId ⟨[], children.length⟩ } := by
    refine .of_begun (hapart.aside hind (Nat.le_refl _) fun other hne => ?_) (fun b hb => ?_)
      Join.joining_of_turn ?_
    · rw [Table.get?_insert, if_neg (Ne.symm hne)]
    · have hmem : b.task ∈ children := htasks ▸ List.mem_map.mpr ⟨b, hb, rfl⟩
      exact (hsettles _ hmem).next (hfrom b hb).next
    · rw [hlength]
      exact Table.get?_insert_self _ _ _
  obtain ⟨turns, o, w', hcarries, hcarried⟩ := hcarrying.finishes hind
  have hstrand : ∀ {i : Nat} {b : Begun C S}, begun[i]? = some b →
      Carried watch w.nextId agree i b.strand turns w' := by
    intro i b hb
    exact hcarried (by rw [List.getElem?_map, hb, Option.map_some])
  refine ⟨begun, turns, o, w', htasks, ⟨_, _, hturn, hcarries⟩, ?_, ?_, ?_⟩
  · have hstep : (Schedule.ofRun (.opening children)).step.Shows watch w _ (.ok (.inr ⟨_, _, []⟩)) _ :=
      (Schedule.shows_step_nil_iff rfl).mpr ⟨_, hturn, rfl⟩
    have hruns := hcarries.runs
    rw [hchildren] at hruns
    exact Schedule.shows_run_iff.mpr
      (Or.inl ⟨[], _, w, _, shows_pure _ _, .turn hstep hruns, rfl⟩)
  · intro i b hb
    have hb' := hfrom b (List.mem_of_getElem? hb)
    obtain ⟨o, y, hgoes, hy⟩ := (hstrand hb).goes
    exact ⟨hb', o, y, .next hb'.next hgoes, hy⟩
  · intro i hi
    have hb := List.getElem?_eq_getElem (hlength ▸ hi)
    exact (hstrand hb).once

/-- When what is seen of a task alone does not depend on which identities are taken meanwhile, the same is
seen on its behalf as when it is run on its own. -/
theorem CarriedThrough.shows_run {children : List (Recipe C)} {begun : List (Begun C S)}
    {turns : List (TakenTurn C)} {o : Outcome (Value C)}
    (h : CarriedThrough watch agree children w begun turns o w') {i : Nat} {b : Begun C S}
    (hb : begun[i]? = some b) (hsettles : Strand.Settles watch ⟨.ahead b.task, w⟩)
    (hsame : ∀ {calls calls' o o' y y'}, Strand.Goes watch ⟨.ahead b.task, w⟩ calls o y →
      Strand.Goes watch ⟨.ahead b.task, w⟩ calls' o' y' → calls = calls') :
    ∃ o u, b.task.run.Shows watch w (b.calls ++ TakenTurn.callsOf i turns) (.ok (some o)) u := by
  obtain ⟨-, _, _, hgoes, -⟩ := h.alone hb
  obtain ⟨calls, o, u, hrun⟩ := hsettles.run
  obtain ⟨_, hgoes', -⟩ := Strand.goes_of_run hrun
  exact ⟨o, u, hsame hgoes hgoes' ▸ hrun⟩

namespace Course

variable {w₁ : World C S} {calls : List (SeenCall C)}

/-- A lap begins with the turn of the main run. -/
theorem shows_under_lap_of_poll {run : Run C} {t : Turn C} {turned : List (Child C)}
    (hadvance : Schedule.canAdvance w ⟨.pending run, [], turned⟩ = true)
    (hpoll : run.poll.Shows watch w calls (.ok t) w₁) (hstarted : w₁.started = []) :
    (under ⟨.pending run, [], turned⟩).step.Shows watch w calls
      (.ok (.inr (.under ⟨t, turned, []⟩))) w₁ := by
  have hsame : { w₁ with started := [] } = w₁ := by rw [← hstarted]
  refine (shows_under_lap_iff hadvance).mpr ⟨t, [], ?_, by rw [List.append_nil]⟩
  exact Schedule.shows_mainTurn_iff.mpr (Or.inl ⟨t, w₁, hpoll, by rw [hstarted], hsame.symm⟩)

/-- The turn of a child that waits, if it stays pending. -/
theorem shows_under_cons_of_pending {main : Turn C} {child : Child C} {run : Run C}
    {waiting turned : List (Child C)} (hpoll : child.run.poll.Shows watch w calls (.ok (.pending run)) w₁)
    (hstarted : w₁.started = []) :
    (under ⟨main, child :: waiting, turned⟩).step.Shows watch w calls
      (.ok (.inr (.under ⟨main, waiting, turned ++ [{ child with run }]⟩))) w₁ := by
  have hsame : { w₁ with started := [] } = w₁ := by rw [← hstarted]
  have hturn := Schedule.shows_childTurn_of_pending hpoll
  rw [hsame, hstarted] at hturn
  exact shows_under_cons_iff.mpr ⟨_, _, hturn, by rw [List.append_nil]; rfl⟩

end Course

/-- A function of a small program: it counts at a place of its own, and may end with an error. -/
structure Counting where
  place : Nat
  fails : Bool

namespace Counting

/-- A function of the program as a value. -/
def func (c : Counting) : Func Counting := ⟨c.place, "count", 0, .host c⟩

/-- What a function that fails ends with. -/
def refusal : Error := .invalidArgument "count" "refused"

/-- The world with one more counted at a place. -/
def counted (place : Nat) (w : World Counting (Nat → Nat)) : World Counting (Nat → Nat) :=
  { w with host := fun k => if k = place then w.host k + 1 else w.host k }

instance : Embedding Counting (Nat → Nat) where
  body c _ := do
    Action.modify (counted c.place)
    if c.fails then .fail refusal else return .nil

/-- What is seen when the function is called. -/
def seen (c : Counting) : SeenCall Counting :=
  ⟨func c, [], if c.fails then .error refusal else .ok .nil⟩

/-- What the function ends with, as the outcome of a task. -/
def outcome (c : Counting) : Outcome (Value Counting) :=
  if c.fails then ⟨.failure, failureValue refusal⟩ else ⟨.success, .nil⟩

/-- The function as a task that gives up some turns first. -/
def late (c : Counting) (n : Nat) : Recipe Counting := .turns n (.future (func c))

/-- The same task as the only child of a parallel task. -/
def nested (c : Counting) (n : Nat) : Recipe Counting := .parallel [late c n]

/-- The points of the courses of both tasks, by the number of steps that are left: the course, and what is
in the mailbox of the inner parallel task, once there is one. -/
inductive Point (c : Counting) :
    Nat → Course Counting → Option (Nat × Mailbox Counting) → Prop
  | ended (o : Outcome (Value Counting)) (box : Option (Nat × Mailbox Counting)) :
      Point c 0 (.under ⟨.settled o, [], []⟩) box
  | turns (n : Nat) : Point c (n + 1) (.under ⟨.pending (.turns n (.future (func c))), [], []⟩) none
  | late (n : Nat) : Point c (n + 2) (.ahead (late c n)) none
  | reported (k : Nat) (o : Outcome (Value Counting)) :
      Point c 1 (.under ⟨.pending (.joining k (.start 1)), [], []⟩) (some (k, ⟨[(0, o)], 0⟩))
  | waiting (k n : Nat) :
      Point c (2 * n + 2)
        (.under ⟨.pending (.joining k (.start 1)), [⟨k, 0, .turns n (.future (func c))⟩], []⟩)
        (some (k, ⟨[], 1⟩))
  | turned (k n : Nat) :
      Point c (2 * n + 3)
        (.under ⟨.pending (.joining k (.start 1)), [], [⟨k, 0, .turns n (.future (func c))⟩]⟩)
        (some (k, ⟨[], 1⟩))
  | opening (n : Nat) : Point c (2 * n + 3) (.under ⟨.pending (.opening [Counting.late c n]), [], []⟩) none
  | nested (n : Nat) : Point c (2 * n + 4) (.ahead (nested c n)) none

/-- A world in which a course is at a point that finds this in a mailbox. -/
structure Holds (box : Option (Nat × Mailbox Counting)) (w : World Counting (Nat → Nat)) : Prop where
  started : w.started = []
  mailbox : ∀ e ∈ box, w.mailboxes.get? e.1 = some e.2

/-- What a step may change: something is counted at a place, identities are taken, and a mailbox is left
with something in it. -/
structure Changes (c : Counting) (counts : Bool) (minted : Nat) (box : Option (Nat × Mailbox Counting))
    (w w' : World Counting (Nat → Nat)) : Prop where
  holds : Holds box w'
  nextId : w'.nextId = w.nextId + minted
  host : w'.host = (cond counts (counted c.place w) w).host
  others : ∀ other, (∀ e ∈ box, e.1 ≠ other) → w'.mailboxes.get? other = w.mailboxes.get? other

/-- What comes next at a point when the next identity is a given one: the same in all worlds in which it
holds. -/
def Takes (c : Counting) (left : Nat) (course : Course Counting) (box : Option (Nat × Mailbox Counting))
    (id : Nat) : Prop :=
  ∃ calls course' box' counts minted, Point c left course' box' ∧
    (∀ e ∈ box', (∃ e₀ ∈ box, e₀.1 = e.1) ∨ e.1 ∈ Set.Ico id (id + minted)) ∧
    ∀ {w : World Counting (Nat → Nat)}, Holds box w → w.nextId = id → ∃ w',
      course.step.Shows (fun _ => true) w calls (.ok (.inr course')) w' ∧ Changes c counts minted box' w w'

section Steps

variable {c : Counting} {left : Nat} {course : Course Counting} {box : Option (Nat × Mailbox Counting)}
  {w w' : World Counting (Nat → Nat)}

/-- A step that changes nothing. -/
theorem Changes.refl (h : Holds box w) : Changes c false 0 box w w := ⟨h, rfl, rfl, fun _ _ => rfl⟩

/-- A step that does nothing but count. -/
theorem changes_counted (h : Holds box w) : Changes c true 0 box w (counted c.place w) :=
  ⟨⟨h.started, h.mailbox⟩, rfl, rfl, fun _ _ => rfl⟩

/-- A step that does nothing but leave something else in the mailbox. -/
theorem changes_insert {k : Nat} {m m' : Mailbox Counting} (h : Holds (some (k, m)) w) :
    Changes c false 0 (some (k, m')) w { w with mailboxes := w.mailboxes.insert k m' } := by
  refine ⟨⟨h.started, ?_⟩, rfl, rfl, fun other hother => ?_⟩
  · rintro _ ⟨⟩
    exact Table.get?_insert_self _ _ _
  · rw [Table.get?_insert, if_neg (hother _ rfl)]

/-- The function is called when the last turn has been given up. -/
theorem shows_poll_turns_zero (c : Counting) (w : World Counting (Nat → Nat)) :
    (Run.turns 0 (.future (func c))).poll.Shows (fun _ => true) w [seen c] (.ok (.settled (outcome c)))
      (counted c.place w) := by
  obtain ⟨place, _ | _⟩ := c <;> exact ⟨2, rfl⟩

/-- A turn is given up. -/
theorem shows_poll_turns_succ (c : Counting) (n : Nat) (w : World Counting (Nat → Nat)) :
    (Run.turns (n + 1) (.future (func c))).poll.Shows (fun _ => true) w []
      (.ok (.pending (.turns n (.future (func c))))) w := ⟨0, rfl⟩

/-- A course that has ended stays so. -/
theorem Point.ended_of_zero (h : Point c 0 course box) : ∃ o, ∀ w : World Counting (Nat → Nat),
    course.step.Shows (fun _ => true) w [] (.ok (.inl (some o))) w := by
  cases h with
  | ended o => exact ⟨o, fun _ => ⟨0, rfl⟩⟩

/-- A course that has begun a lap of the inner parallel task reads its mailbox. -/
theorem shows_lap_joining {k : Nat} {m : Mailbox Counting} {turned : List (Child Counting)}
    (h : Holds (some (k, m)) w)
    (hadvance : Schedule.canAdvance w ⟨.pending (.joining k (.start 1)), [], turned⟩ = true) :
    (Course.under ⟨.pending (.joining k (.start 1)), [], turned⟩).step.Shows (fun _ => true) w []
      (.ok (.inr (.under ⟨Join.turn k ((Join.start 1).drain m.senders m.reports), turned, []⟩)))
      { w with mailboxes := w.mailboxes.insert k ⟨[], m.senders⟩ } :=
  Course.shows_under_lap_of_poll hadvance (Join.shows_read _ _ (h.mailbox _ rfl)) h.started

/-- The inner parallel task takes an identity for its mailbox and starts its child. -/
theorem takes_opening (c : Counting) (n id : Nat) :
    Takes c (2 * n + 2) (.under ⟨.pending (.opening [Counting.late c n]), [], []⟩) none id := by
  refine ⟨[], _, _, false, 1, .waiting id n, ?_, fun {w} hw hid => ?_⟩
  · rintro _ ⟨⟩
    exact .inr ⟨Nat.le_refl _, Nat.lt_succ_self _⟩
  · subst hid
    have hstart : ([Counting.late c n].mapM Recipe.start).Shows (fun _ => true) (w.opening 1) []
        (.ok [.turns n (.future (func c))]) (w.opening 1) := ⟨0, rfl⟩
    have hturn := Schedule.shows_mainTurn_opening hstart hw.started (Table.get?_insert_self _ _ _)
    refine ⟨_, (Course.shows_under_lap_iff rfl).mpr ⟨_, _, hturn, rfl⟩, ⟨hw.started, ?_⟩, rfl, rfl,
      fun other hother => ?_⟩
    · rintro _ ⟨⟩
      exact Table.get?_insert_self _ _ _
    · have hne := hother _ rfl
      simp only [World.opening, Table.get?_insert, if_neg hne]

/-- The child of the inner parallel task reports in its last turn. -/
theorem takes_last_turn (c : Counting) (k id : Nat) :
    Takes c 1
      (.under ⟨.pending (.joining k (.start 1)), [⟨k, 0, .turns 0 (.future (func c))⟩], []⟩)
      (some (k, ⟨[], 1⟩)) id := by
  refine ⟨[seen c], _, _, true, 0, .reported k (outcome c), ?_, fun {w} hw _ => ?_⟩
  · rintro _ ⟨⟩
    exact .inl ⟨_, rfl, rfl⟩
  · have hstarted : (counted c.place w).started = [] := hw.started
    have hturn : (Schedule.childTurn ⟨k, 0, .turns 0 (.future (func c))⟩).Shows (fun _ => true) w
        [seen c] _ _ :=
      Schedule.shows_childTurn_of_settled (shows_poll_turns_zero c w) (hw.mailbox _ rfl)
    rw [hstarted] at hturn
    refine ⟨_, Course.shows_under_cons_iff.mpr ⟨_, _, hturn, rfl⟩, ⟨rfl, ?_⟩, rfl, rfl,
      fun other hother => ?_⟩
    · rintro _ ⟨⟩
      exact Table.get?_insert_self _ _ _
    · exact (Table.get?_insert _ _ _ _).trans (if_neg (hother _ rfl))

/-- The inner parallel task settles when it reads the report. -/
theorem takes_reported (c : Counting) (k : Nat) (o : Outcome (Value Counting)) (id : Nat) :
    Takes c 0 (.under ⟨.pending (.joining k (.start 1)), [], []⟩) (some (k, ⟨[(0, o)], 0⟩)) id := by
  obtain ⟨o', ho'⟩ := Join.drain_zero (Join.start 1) [(0, o)]
  refine ⟨[], _, some (k, ⟨[], 0⟩), false, 0, .ended o' _, ?_,
    fun {w} hw _ => ⟨_, ?_, changes_insert hw⟩⟩
  · rintro _ ⟨⟩
    exact .inl ⟨_, rfl, rfl⟩
  · have hadvance : Schedule.canAdvance w ⟨.pending (.joining k (.start 1)), [], []⟩ = true := by
      simp [Schedule.canAdvance, Turn.canAdvance, Run.canAdvance, hw.mailbox _ rfl]
    have hlap := shows_lap_joining hw hadvance
    rw [ho'] at hlap
    exact hlap

/-- At every point from which steps are left it is known what comes next. -/
theorem Point.takes (h : Point c (left + 1) course box) (id : Nat) : Takes c left course box id := by
  cases h with
  | late n =>
    exact ⟨[], _, none, false, 0, .turns n, by simp, fun hw _ => ⟨_, ⟨0, rfl⟩, .refl hw⟩⟩
  | nested n =>
    exact ⟨[], _, none, false, 0, .opening n, by simp, fun hw _ => ⟨_, ⟨0, rfl⟩, .refl hw⟩⟩
  | turns =>
    cases left with
    | zero =>
      refine ⟨[seen c], _, none, true, 0, .ended (outcome c) none, by simp,
        fun {w} hw _ => ⟨_, ?_, changes_counted hw⟩⟩
      exact Course.shows_under_lap_of_poll rfl (shows_poll_turns_zero c w) hw.started
    | succ n =>
      refine ⟨[], _, none, false, 0, .turns n, by simp, fun {w} hw _ => ⟨_, ?_, .refl hw⟩⟩
      exact Course.shows_under_lap_of_poll rfl (shows_poll_turns_succ c n w) hw.started
  | opening n => exact takes_opening c n id
  | waiting k n =>
    cases n with
    | zero => exact takes_last_turn c k id
    | succ n =>
      refine ⟨[], _, _, false, 0, .turned k n, fun e he => .inl ⟨e, he, rfl⟩,
        fun {w} hw _ => ⟨_, ?_, .refl hw⟩⟩
      exact Course.shows_under_cons_of_pending (shows_poll_turns_succ c n w) hw.started
  | turned k n =>
    refine ⟨[], _, _, false, 0, .waiting k n, fun e he => .inl ⟨e, he, rfl⟩,
      fun {w} hw _ => ⟨_, ?_, changes_insert hw⟩⟩
    refine shows_lap_joining hw ?_
    simp [Schedule.canAdvance, Run.canAdvance]
  | reported k o => exact takes_reported c k o id

/-- A course with an end settles. -/
theorem Point.settles (h : Point c left course box) (hw : Holds box w) :
    Strand.Settles (fun _ => true) ⟨course, w⟩ := by
  induction left generalizing course box w with
  | zero =>
    refine .of (fun n _ => ?_) ?_
    · obtain ⟨o, hended⟩ := h.ended_of_zero
      exact ⟨_, _, _, hended _, by simp⟩
    · rintro calls y ⟨n, -, hstep⟩
      obtain ⟨o, hended⟩ := h.ended_of_zero
      obtain ⟨-, heq, -⟩ := hstep.unique (hended _)
      cases heq
  | succ left ih =>
    have htaken : ∀ n, Holds box (w.taken n) := fun _ => ⟨hw.started, hw.mailbox⟩
    refine .of (fun n _ => ?_) ?_
    · obtain ⟨_, _, _, _, _, -, -, hnext⟩ := h.takes n
      obtain ⟨_, hshows, -⟩ := hnext (htaken n) rfl
      exact ⟨_, _, _, hshows, by simp⟩
    · rintro calls ⟨course', u⟩ ⟨n, -, hstep⟩
      obtain ⟨_, _, _, _, _, hpoint, -, hnext⟩ := h.takes n
      obtain ⟨_, hshows, hchanges⟩ := hnext (htaken n) rfl
      obtain ⟨-, heq, rfl⟩ := hstep.unique hshows
      obtain rfl := Sum.inr.inj (Except.ok.inj heq)
      exact ih hpoint hchanges.holds

/-- A child that a course has started reports to the inner parallel task. -/
theorem Point.exists_of_mem_children (h : Point c left course box) :
    ∀ child ∈ course.children, ∃ e ∈ box, child.mailbox = e.1 := by
  cases h with
  | waiting k n | turned k n =>
    intro child hchild
    obtain rfl := List.mem_singleton.mp hchild
    exact ⟨_, rfl, rfl⟩
  | _ => exact fun _ hchild => absurd hchild List.not_mem_nil

/-- The world of all agrees with the one that a task has made alone: the task is at a point that holds in
both, its mailbox is under an identity of its own, and as much was counted at its place. -/
structure Agrees (place : Nat) (own : Set Nat) (x : Strand Counting (Nat → Nat))
    (w : World Counting (Nat → Nat)) : Prop where
  point : ∃ c left box, c.place = place ∧ Point c left x.course box ∧ (∀ e ∈ box, e.1 ∈ own) ∧
    Holds box x.world ∧ Holds box w
  host : w.host place = x.world.host place

variable {place other parent : Nat} {own own' : Set Nat} {x y : Strand Counting (Nat → Nat)}

/-- What a step in the world of all does: it leaves a mailbox under an identity that the task has taken, if
any, and brings the task to a later point. -/
theorem Agrees.exists_changes (h : Agrees place own x w) {calls : List (SeenCall Counting)}
    (hstep : x.course.step.Shows (fun _ => true) w calls (.ok (.inr course)) w') :
    ∃ c left box counts minted, c.place = place ∧ Point c left course box ∧
      (∀ e ∈ box, e.1 ∈ own ∪ Set.Ico w.nextId w'.nextId) ∧ Changes c counts minted box w w' := by
  obtain ⟨c, left, box, hplace, hpoint, hown, -, hw⟩ := h.point
  cases left with
  | zero =>
    obtain ⟨o, hended⟩ := hpoint.ended_of_zero
    obtain ⟨-, heq, -⟩ := hstep.unique (hended w)
    cases heq
  | succ left =>
    obtain ⟨_, _, box', counts, minted, hpoint', hbox', hnext⟩ := hpoint.takes w.nextId
    obtain ⟨_, hshows, hchanges⟩ := hnext hw rfl
    obtain ⟨-, heq, rfl⟩ := hstep.unique hshows
    obtain rfl := Sum.inr.inj (Except.ok.inj heq)
    refine ⟨c, left, box', counts, minted, hplace, hpoint', fun e he => ?_, hchanges⟩
    rw [hchanges.nextId]
    exact (hbox' e he).imp_left fun ⟨e₀, he₀, hsame⟩ => hsame ▸ hown e₀ he₀

/-- What has changed in one world and in the other, of which the task agreed before, it agrees of again. -/
theorem Agrees.of_changes {u u' : World Counting (Nat → Nat)} (hpoint : Point c left course box)
    (hown : ∀ e ∈ box, e.1 ∈ own) {counts : Bool} {minted : Nat}
    (halone : Changes c counts minted box u u') (h : Changes c counts minted box w w')
    (hhost : w.host c.place = u.host c.place) : Agrees c.place own ⟨course, u'⟩ w' := by
  refine ⟨⟨c, left, box, rfl, hpoint, hown, halone.holds, h.holds⟩, ?_⟩
  rw [h.host, halone.host]
  cases counts with
  | false => exact hhost
  | true => simp [counted, hhost]

/-- A step does in the world of all what it does alone. -/
theorem Agrees.alike (h : Agrees place own x w) {calls : List (SeenCall Counting)}
    {r : Except Error (Option (Outcome (Value Counting)) ⊕ Course Counting)}
    {u : World Counting (Nat → Nat)}
    (hstep : x.course.step.Shows (fun _ => true) (x.world.taken w.nextId) calls r u) :
    ∃ w', x.course.step.Shows (fun _ => true) w calls r w' ∧ w'.nextId = u.nextId ∧
      ∀ c, r = .ok (.inr c) → Agrees place (own ∪ Set.Ico w.nextId w'.nextId) ⟨c, u⟩ w' := by
  obtain ⟨⟨c, left, box, rfl, hpoint, hown, halone, hw⟩, hhost⟩ := h
  cases left with
  | zero =>
    obtain ⟨o, hended⟩ := hpoint.ended_of_zero
    obtain ⟨rfl, rfl, rfl⟩ := hstep.unique (hended _)
    exact ⟨w, hended w, rfl, by simp⟩
  | succ left =>
    obtain ⟨_, course, box', counts, minted, hpoint', hbox', hnext⟩ := hpoint.takes w.nextId
    have htaken : Holds box (x.world.taken w.nextId) := ⟨halone.started, halone.mailbox⟩
    obtain ⟨_, halone', hchanges⟩ := hnext htaken rfl
    obtain ⟨w', hshows, hchanges'⟩ := hnext hw rfl
    obtain ⟨rfl, rfl, rfl⟩ := hstep.unique halone'
    refine ⟨w', hshows, hchanges'.nextId.trans hchanges.nextId.symm, ?_⟩
    rintro _ ⟨⟩
    refine .of_changes hpoint' (fun e he => ?_) hchanges hchanges' hhost
    rw [hchanges'.nextId]
    exact (hbox' e he).imp_left fun ⟨e₀, he₀, hsame⟩ => hsame ▸ hown e₀ he₀

/-- A step changes nothing that another task could notice. -/
theorem Agrees.of_other (hy : Agreeing parent Agrees other own' y w) (hne : c.place ≠ other)
    (hdisjoint : Disjoint own own') (hown : ∀ e ∈ box, e.1 ∈ own ∪ Set.Ico w.nextId w'.nextId)
    {counts : Bool} {minted : Nat} (h : Changes c counts minted box w w') : Agrees other own' y w' := by
  obtain ⟨⟨c', left, theirs, hplace, hpoint, htheirs, halone, hw⟩, hhost⟩ := hy.agree
  refine ⟨⟨c', left, theirs, hplace, hpoint, htheirs, halone, h.holds.started, fun e he => ?_⟩, ?_⟩
  · refine (h.others e.1 fun e' he' heq => ?_).trans (hw.mailbox e he)
    have hmine : e.1 ∈ own ∪ Set.Ico w.nextId w'.nextId := heq ▸ hown e' he'
    exact Set.disjoint_left.mp (hdisjoint.union_left (hy.disjoint_Ico _)) hmine (htheirs e he)
  · rw [h.host, ← hhost]
    cases counts with
    | false => rfl
    | true => exact if_neg (Ne.symm hne)

end Steps

/-- The effects of such tasks do not depend on each other's. -/
theorem independent (parent : Nat) : Independent (fun _ => true) parent Agrees where
  alike := fun h => h.agree.alike
  apart := by
    intro place other own own' x y w hx hy hne hdisjoint calls course w' hstep
    obtain ⟨c, left, box, counts, minted, rfl, -, hown, hchanges⟩ := hx.agree.exists_changes hstep
    exact .of_other hy hne hdisjoint hown hchanges
  aside := by
    intro place own x w n boxes h _ hboxes
    obtain ⟨⟨c, left, box, hplace, hpoint, hown, halone, hw⟩, hhost⟩ := h.agree
    refine ⟨⟨c, left, box, hplace, hpoint, hown, halone, hw.started, fun e he => ?_⟩, hhost⟩
    have hlt : parent < e.1 := (h.own (hown e he)).1
    exact (hboxes e.1 (Nat.ne_of_gt hlt)).trans (hw.mailbox e he)
  leaves := by
    intro place own x w h calls course w' hstep
    obtain ⟨c, left, box, counts, minted, -, hpoint, hown, hchanges⟩ := h.agree.exists_changes hstep
    have hne : ∀ e ∈ box, e.1 ≠ parent := by
      intro e he
      rcases hown e he with hmine | hnew
      · exact Nat.ne_of_gt (h.own hmine).1
      · exact Nat.ne_of_gt (Nat.lt_of_lt_of_le h.box_lt hnew.1)
    refine ⟨hchanges.nextId ▸ Nat.le_add_right _ _, fun _ => hchanges.holds.started,
      hchanges.others parent hne, fun child hchild => ?_⟩
    obtain ⟨e, he, hmailbox⟩ := hpoint.exists_of_mem_children child hchild
    exact hmailbox ▸ hne e he

end Counting

/-- The first child fails at once, so that the parallel task settles before the others count; they are
parallel tasks themselves, with a mailbox of their own each, and are carried through as well. -/
theorem parallel_carries_nested_children_through :
    let w : World Counting (Nat → Nat) := ⟨.empty, .empty, .empty, .empty, [], 0, fun _ => 0⟩
    let children : List (Recipe Counting) :=
      [Counting.late ⟨0, true⟩ 0, Counting.nested ⟨1, false⟩ 1, Counting.nested ⟨2, false⟩ 1]
    Independent (fun _ => true) w.nextId Counting.Agrees ∧
      (∀ t ∈ children, Strand.Settles (fun _ => true) ⟨.ahead t, w⟩) ∧
      ∃ begun turns o w', CarriedThrough (fun _ => true) Counting.Agrees children w begun turns o w' ∧
        o = Counting.outcome ⟨0, true⟩ ∧ w'.host 0 = 1 ∧ w'.host 1 = 1 ∧ w'.host 2 = 1 := by
  intro w children
  have hpoints : ∀ i t, children[i]? = some t → ∃ c left, c.place = i ∧
      Counting.Point c left (.ahead t) none := by
    intro i t hi
    match i with
    | 0 => cases hi; exact ⟨_, _, rfl, .late 0⟩
    | 1 => cases hi; exact ⟨_, _, rfl, .nested 1⟩
    | 2 => cases hi; exact ⟨_, _, rfl, .nested 1⟩
  have hholds : ∀ w : World Counting (Nat → Nat), w.started = [] → Counting.Holds none w :=
    fun w hw => ⟨hw, by simp⟩
  have hsettles : ∀ t ∈ children, Strand.Settles (fun _ => true) ⟨.ahead t, w⟩ := by
    intro t ht
    obtain ⟨i, hi⟩ := List.mem_iff_getElem?.mp ht
    obtain ⟨c, left, -, hpoint⟩ := hpoints i t hi
    exact hpoint.settles (hholds w rfl)
  have hagree : ∀ i t, children[i]? = some t →
      Counting.Agrees i ∅ ⟨.ahead t, w⟩ (w.opening children.length) := by
    intro i t hi
    obtain ⟨c, left, hplace, hpoint⟩ := hpoints i t hi
    exact ⟨⟨c, left, none, hplace, hpoint, by simp, hholds _ rfl, hholds _ rfl⟩, rfl⟩
  have hind := Counting.independent w.nextId
  obtain ⟨begun, turns, o, w', h⟩ := parallel_carries_children_through hind hagree hsettles rfl
  have hseen : ((Recipe.parallel children).run.observe (observed (fun _ => true) 16) w).map
      (fun s => (s.result, s.world.host 0, s.world.host 1, s.world.host 2)) =
        some (.ok (some (Counting.outcome ⟨0, true⟩)), 1, 1, 1) := rfl
  obtain ⟨⟨calls, _, last⟩, hsight, hends⟩ := Option.map_eq_some_iff.mp hseen
  obtain ⟨rfl, hfirst, hsecond, hthird⟩ := by simpa only [Prod.mk.injEq] using hends
  obtain ⟨-, ho, rfl⟩ := h.run.unique ⟨16, hsight⟩
  obtain rfl := Option.some.inj (Except.ok.inj ho)
  exact ⟨hind, hsettles, begun, turns, _, _, h, rfl, hfirst, hsecond, hthird⟩

end DynamicDispatch
