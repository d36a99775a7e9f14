import DynamicDispatch.Proofs.Action.Run
import DynamicDispatch.Proofs.Task.Join

/-!
# Parallel tasks

A parallel task starts its children, gives each a place in its mailbox and joins what they report. A
history is any interleaving of its own turns, of turns of its children and of whatever else happens in
the world; a child reports in the turn in which it settles. At every point of every history each child
has been started once and is either under way or has reported what its run came to, what the order of
arrival decides so far is what the task has settled with or settles with in its next turn, and as long as
it decides nothing the task keeps waiting.
-/

namespace DynamicDispatch

variable {C S : Type}

/-- The world in which a parallel task of `n` children has its mailbox and starts them. -/
def World.opening (w : World C S) (n : Nat) : World C S :=
  { w with
    nextId := w.nextId + 1
    mailboxes := w.mailboxes.insert w.nextId ⟨[], n⟩ }

/-- What a run of a task comes to: the task is started, and then what is left of it is given turns, in
whatever worlds there are. -/
inductive Recipe.Reaches [Embedding C S] (answer : Answering C S) (r : Recipe C) : Turn C → Prop
  | started {w w' : World C S} {run : Run C} (hrun : r.start.run answer w = some (.ok run, w')) :
      Reaches answer r (.pending run)
  | turned {w w' : World C S} {run : Run C} {t : Turn C} (earlier : Reaches answer r (.pending run))
      (hrun : run.poll.run answer w = some (.ok t, w')) : Reaches answer r t

/-- A history of a parallel task: the children that have reported, in order, the children under way, the
world and the last turn of the task. Under way are at first the children that its first turn leaves to
the scheduler. Each of them is given turns, and in the one in which it settles it reports. Nothing else
in the world touches the mailbox of the task or has a place in it, be it while the children are started
or later. -/
inductive Joining [Embedding C S] (answer : Answering C S) (children : List (Recipe C)) (box : Nat)
    (results : Nat → Outcome (Value C)) :
    List Nat → List (Child C) → World C S → Turn C → Prop
  | opened {w w' : World C S} {t : Turn C} (hbox : box = w.nextId)
      (hrun : ((Recipe.parallel children).start >>= Run.poll).run answer w = some (.ok t, w'))
      (hsame : ∀ runs v, (children.mapM Recipe.start).run answer (w.opening children.length) =
        some (.ok runs, v) →
          v.mailboxes.get? box = (w.opening children.length).mailboxes.get? box ∧
            ∀ child ∈ v.started, child.mailbox ≠ box) :
      Joining answer children box results [] (w'.started.filter (·.mailbox == box)) w' t
  | arrived {order : List Nat} {before after : List (Child C)} {child : Child C} {w w₁ w' : World C S}
      {t : Turn C}
      (earlier : Joining answer children box results order (before ++ child :: after) w t)
      (hrun : child.run.poll.run answer w = some (.ok (.settled (results child.position)), w₁))
      (hsame : w₁.mailboxes.get? box = w.mailboxes.get? box)
      (hreport : (report child (results child.position)).run answer w₁ = some (.ok (), w')) :
      Joining answer children box results (order ++ [child.position]) (before ++ after) w' t
  | advanced {order : List Nat} {before after : List (Child C)} {child : Child C} {run : Run C}
      {w w' : World C S} {t : Turn C}
      (earlier : Joining answer children box results order (before ++ child :: after) w t)
      (hrun : child.run.poll.run answer w = some (.ok (.pending run), w'))
      (hsame : w'.mailboxes.get? box = w.mailboxes.get? box) :
      Joining answer children box results order (before ++ { child with run } :: after) w' t
  | turned {order : List Nat} {underway : List (Child C)} {w w' : World C S} {run : Run C} {t : Turn C}
      (earlier : Joining answer children box results order underway w (.pending run))
      (hrun : run.poll.run answer w = some (.ok t, w')) :
      Joining answer children box results order underway w' t
  | elsewhere {order : List Nat} {underway : List (Child C)} {w w' : World C S} {t : Turn C}
      (earlier : Joining answer children box results order underway w t)
      (hsame : w'.mailboxes.get? box = w.mailboxes.get? box) :
      Joining answer children box results order underway w' t

/-- Each child of a parallel task has been started once, at its position: it is under way, or it has
reported what its run came to. -/
structure Accounted [Embedding C S] (answer : Answering C S) (children : List (Recipe C)) (box : Nat)
    (results : Nat → Outcome (Value C)) (order : List Nat) (underway : List (Child C)) : Prop where
  once : (order ++ underway.map (·.position)).Perm (List.range children.length)
  reported : ∀ i ∈ order, ∃ r, children[i]? = some r ∧ r.Reaches answer (.settled (results i))
  underway : ∀ child ∈ underway, child.mailbox = box ∧
    ∃ r, children[child.position]? = some r ∧ r.Reaches answer (.pending child.run)

namespace Accounted

variable [Embedding C S] {answer : Answering C S} {children : List (Recipe C)} {box : Nat}
  {results : Nat → Outcome (Value C)} {order : List Nat} {underway before after : List (Child C)}
  {child : Child C} {w w' : World C S}

/-- Those that have reported are among all children, each at most once. -/
theorem arrivals (h : Accounted answer children box results order underway) :
    Join.Arrivals children.length order := by
  have hnodup : (order ++ underway.map (·.position)).Nodup := h.once.nodup_iff.mpr List.nodup_range
  refine ⟨(List.nodup_append.mp hnodup).1, fun i hi => ?_⟩
  exact List.mem_range.mp (h.once.mem_iff.mp (List.mem_append_left _ hi))

/-- A child under way that settles is one that reports. -/
theorem arrived (h : Accounted answer children box results order (before ++ child :: after))
    (hrun : child.run.poll.run answer w = some (.ok (.settled (results child.position)), w')) :
    Accounted answer children box results (order ++ [child.position]) (before ++ after) := by
  obtain ⟨-, r, hr, hreaches⟩ := h.underway child (List.mem_append_right _ List.mem_cons_self)
  refine ⟨List.Perm.trans ?_ h.once, fun i hi => ?_, fun other hother => h.underway other ?_⟩
  · simp only [List.map_append, List.map_cons, List.append_assoc, List.singleton_append]
    exact List.perm_middle.symm.append_left order
  · rcases List.mem_append.mp hi with hi | hi
    · exact h.reported i hi
    · obtain rfl := List.mem_singleton.mp hi
      exact ⟨r, hr, .turned hreaches hrun⟩
  · rcases List.mem_append.mp hother with hother | hother
    · exact List.mem_append_left _ hother
    · exact List.mem_append_right _ (List.mem_cons_of_mem _ hother)

/-- A child under way that stays pending is still under way. -/
theorem advanced (h : Accounted answer children box results order (before ++ child :: after))
    {run : Run C} (hrun : child.run.poll.run answer w = some (.ok (.pending run), w')) :
    Accounted answer children box results order (before ++ { child with run } :: after) := by
  obtain ⟨hmailbox, r, hr, hreaches⟩ := h.underway child (List.mem_append_right _ List.mem_cons_self)
  refine ⟨by simpa using h.once, h.reported, fun other hother => ?_⟩
  rcases List.mem_append.mp hother with hother | hother
  · exact h.underway other (List.mem_append_left _ hother)
  · rcases List.mem_cons.mp hother with rfl | hother
    · exact ⟨hmailbox, r, hr, .turned hreaches hrun⟩
    · exact h.underway other (List.mem_append_right _ (List.mem_cons_of_mem _ hother))

end Accounted

namespace Join

/-- What holds between the order of arrival, the mailbox and the last turn of a parallel task: a
settled task has settled with the verdict, and a waiting one has read the first arrivals, all of them
successes, and finds the others in its mailbox beside the number of children still to come. -/
def Consistent (n box : Nat) (results : Nat → Outcome (Value C)) (order : List Nat)
    (w : World C S) : Turn C → Prop
  | .settled o => verdict n results order = some o
  | .pending run => ∃ read queued, order = read ++ queued ∧
      (∀ k ∈ read, (results k).side = .success) ∧ run = .joining box (received n results read) ∧
      w.mailboxes.get? box = some ⟨queued.map fun i => (i, results i), n - order.length⟩

variable {n box : Nat} {results : Nat → Outcome (Value C)} {order : List Nat} {w : World C S}

/-- A mailbox is read without changing anything. -/
theorem run_mailbox (answer : Answering C S) {m : Mailbox C}
    (hmailbox : w.mailboxes.get? box = some m) :
    (mailbox box).run answer w = some (.ok m, w) := by
  change some (Except.ok ((w.mailboxes.get? box).getD ⟨[], 0⟩), w) = _
  rw [hmailbox]
  rfl

/-- What a turn of a parallel task ends with, given what reading the mailbox led to. -/
def turn (box : Nat) : Outcome (Value C) ⊕ Join C → Turn C
  | .inl o => .settled o
  | .inr j => .pending (.joining box j)

/-- A parallel task that has read its mailbox and stays pending goes on joining. -/
theorem joining_of_turn {box : Nat} {read : Outcome (Value C) ⊕ Join C} {run : Run C}
    (h : turn box read = .pending run) : ∃ join, run = .joining box join := by
  cases read with
  | inl o => cases h
  | inr j => exact ⟨j, (Turn.pending.inj h).symm⟩

/-- A turn of a parallel task empties the mailbox and ends with what the reports lead to. -/
theorem run_read (answer : Answering C S) (j : Join C) {m : Mailbox C}
    (hmailbox : w.mailboxes.get? box = some m) :
    (Run.read box j).run answer w = some (.ok (turn box (j.drain m.senders m.reports)),
      { w with mailboxes := w.mailboxes.insert box ⟨[], m.senders⟩ }) := by
  rw [Run.read, Action.run_bind, run_mailbox answer hmailbox]
  simp only
  cases j.drain m.senders m.reports <;> rfl

/-- The turn of a waiting task settles it with the verdict, if there is one, and leaves it waiting
otherwise. -/
theorem Consistent.run_poll (answer : Answering C S) [Embedding C S] (harrivals : Arrivals n order)
    {run : Run C} (h : Consistent n box results order w (.pending run)) :
    ∃ t w', run.poll.run answer w = some (.ok t, w') ∧ t.outcome? = verdict n results order ∧
      Consistent n box results order w' t := by
  obtain ⟨read, queued, rfl, hread, rfl, hmailbox⟩ := h
  have hrun := run_read answer (received n results read) hmailbox
  rw [drain_received n results harrivals hread] at hrun
  refine ⟨_, _, hrun, ?_⟩
  cases hverdict : verdict n results (read ++ queued) with
  | some o => exact ⟨rfl, hverdict⟩
  | none =>
    exact ⟨rfl, read ++ queued, [], (List.append_nil _).symm,
      success_of_verdict_eq_none n results hverdict, rfl, by simp⟩

/-- The tasks of a list are started one after the other. -/
theorem reaches_of_run_mapM [Embedding C S] {answer : Answering C S} {tasks : List (Recipe C)}
    {runs : List (Run C)} {w' : World C S}
    (h : (tasks.mapM Recipe.start).run answer w = some (.ok runs, w')) :
    List.Forall₂ (fun r run => r.Reaches answer (.pending run)) tasks runs := by
  induction tasks generalizing runs w with
  | nil =>
    obtain ⟨rfl, -⟩ : [] = runs ∧ w = w' := by simpa [Pure.pure, Action.ok, Action.run] using h
    exact .nil
  | cons r tasks ih =>
    rw [List.mapM_cons] at h
    obtain ⟨run, w₁, hstart, h⟩ := Action.exists_of_run_bind h
    obtain ⟨rest, w₂, hrest, h⟩ := Action.exists_of_run_bind h
    obtain ⟨rfl, rfl⟩ : run :: rest = runs ∧ w₂ = w' := by
      simpa [Pure.pure, Action.ok, Action.run] using h
    exact .cons (.started hstart) (ih hrest)

/-- The first turn of a parallel task starts its children, leaves them to the scheduler and reads the
mailbox. -/
theorem exists_of_run_opening [Embedding C S] {answer : Answering C S} {children : List (Recipe C)}
    {w' : World C S} {t : Turn C}
    (h : ((Recipe.parallel children).start >>= Run.poll).run answer w = some (.ok t, w')) :
    ∃ runs v, (children.mapM Recipe.start).run answer (w.opening children.length) = some (.ok runs, v) ∧
      (Run.read w.nextId (.start children.length)).run answer
        { v with started := v.started ++ runs.mapIdx fun i run => ⟨w.nextId, i, run⟩ } =
          some (.ok t, w') := by
  change (Run.startChildren w.nextId children >>= fun _ =>
    Run.read w.nextId (.start children.length)).run answer (w.opening children.length) = _ at h
  obtain ⟨_, w₁, hchildren, hread⟩ := Action.exists_of_run_bind h
  obtain ⟨runs, v, hstart, hleft⟩ := Action.exists_of_run_bind hchildren
  obtain rfl := congrArg Prod.snd (Option.some.inj hleft)
  exact ⟨runs, v, hstart, hread⟩

/-- The children that were just started are accounted for. -/
theorem accounted_of_started [Embedding C S] {answer : Answering C S} {children : List (Recipe C)}
    {runs : List (Run C)}
    (h : List.Forall₂ (fun r run => r.Reaches answer (.pending run)) children runs) :
    Accounted answer children box results [] (runs.mapIdx fun i run => ⟨box, i, run⟩) := by
  refine ⟨?_, fun _ hi => absurd hi List.not_mem_nil, fun child hchild => ?_⟩
  · rw [List.nil_append, h.length_eq]
    refine .of_eq (List.ext_getElem (by simp) fun i hi hi' => ?_)
    simp
  · obtain ⟨i, hi, rfl⟩ := List.mem_mapIdx.mp hchild
    have hlt : i < children.length := h.length_eq ▸ hi
    exact ⟨rfl, children[i], List.getElem?_eq_getElem hlt, h.get hlt hi⟩

/-- After the first turn of a parallel task its children are under way, and the mailbox, the turn and the
empty order are consistent. -/
theorem accounted_of_opened [Embedding C S] {answer : Answering C S} {children : List (Recipe C)}
    {w' : World C S} {t : Turn C}
    (hrun : ((Recipe.parallel children).start >>= Run.poll).run answer w = some (.ok t, w'))
    (hsame : ∀ runs v, (children.mapM Recipe.start).run answer (w.opening children.length) =
      some (.ok runs, v) →
        v.mailboxes.get? w.nextId = (w.opening children.length).mailboxes.get? w.nextId ∧
          ∀ child ∈ v.started, child.mailbox ≠ w.nextId) :
    Accounted answer children w.nextId results [] (w'.started.filter (·.mailbox == w.nextId)) ∧
      Consistent children.length w.nextId results [] w' t := by
  obtain ⟨runs, v, hstart, hread⟩ := exists_of_run_opening hrun
  obtain ⟨hbox, hothers⟩ := hsame runs v hstart
  have hmailbox : v.mailboxes.get? w.nextId = some ⟨[], children.length⟩ :=
    hbox.trans (Table.get?_insert_self _ _ _)
  let left : World C S :=
    { v with started := v.started ++ runs.mapIdx fun i run => ⟨w.nextId, i, run⟩ }
  have hwaiting : Consistent children.length w.nextId results [] left
      (.pending (.joining w.nextId (.start children.length))) :=
    ⟨[], [], rfl, fun _ hk => absurd hk List.not_mem_nil, rfl, hmailbox⟩
  obtain ⟨t', w'', hpoll, -, hnext⟩ :=
    hwaiting.run_poll answer ⟨List.nodup_nil, fun _ hi => absurd hi List.not_mem_nil⟩
  obtain ⟨rfl, rfl⟩ : t' = t ∧ w'' = w' := by simpa using hpoll.symm.trans hread
  refine ⟨?_, hnext⟩
  have hstarted : w''.started = left.started := by
    have hread := hpoll.symm.trans (run_read answer (.start children.length) hmailbox)
    obtain ⟨-, hworld⟩ := Prod.mk.inj (Option.some.inj hread)
    rw [hworld]
  have hfilter : w''.started.filter (·.mailbox == w.nextId) =
      runs.mapIdx fun i run => ⟨w.nextId, i, run⟩ := by
    rw [hstarted, List.filter_append, List.filter_eq_nil_iff.mpr (by simpa using hothers),
      List.nil_append, List.filter_eq_self.mpr]
    intro child hchild
    obtain ⟨i, -, rfl⟩ := List.mem_mapIdx.mp hchild
    simp
  rw [hfilter]
  exact accounted_of_started (reaches_of_run_mapM hstart)

/-- What happens elsewhere keeps mailbox, turn and order consistent. -/
theorem Consistent.elsewhere {t : Turn C} (h : Consistent n box results order w t) {w' : World C S}
    (hsame : w'.mailboxes.get? box = w.mailboxes.get? box) : Consistent n box results order w' t := by
  cases t with
  | settled o => exact h
  | pending run =>
    obtain ⟨read, queued, horder, hread, hjoining, hmailbox⟩ := h
    exact ⟨read, queued, horder, hread, hjoining, hsame.trans hmailbox⟩

/-- A report that arrives keeps mailbox, turn and the longer order consistent. -/
theorem Consistent.report (answer : Answering C S) {t : Turn C} {i : Nat} {run : Run C}
    (h : Consistent n box results order w t) (harrivals : Arrivals n (order ++ [i]))
    {w' : World C S}
    (hrun : (report ⟨box, i, run⟩ (results i)).run answer w = some (.ok (), w')) :
    Consistent n box results (order ++ [i]) w' t := by
  cases t with
  | settled o => exact verdict_concat n results harrivals h
  | pending rest =>
    obtain ⟨read, queued, rfl, hread, hjoining, hmailbox⟩ := h
    refine ⟨read, queued ++ [i], List.append_assoc _ _ _, hread, hjoining, ?_⟩
    rw [DynamicDispatch.report, Action.run_bind, run_mailbox answer hmailbox] at hrun
    have hworld := congrArg Prod.snd (Option.some.inj hrun)
    change { w with mailboxes := w.mailboxes.insert box _ } = w' at hworld
    rw [← hworld, Table.get?_insert_self]
    simp [Nat.sub_sub, Nat.add_assoc]

/-- Every history accounts for each child and keeps order of arrival, mailbox and turn consistent. -/
theorem accounted_of_joining [Embedding C S] {answer : Answering C S} {children : List (Recipe C)}
    {underway : List (Child C)} {t : Turn C}
    (h : Joining answer children box results order underway w t) :
    Accounted answer children box results order underway ∧
      Consistent children.length box results order w t := by
  induction h with
  | opened hbox hrun hsame =>
    subst hbox
    exact accounted_of_opened hrun hsame
  | @arrived order before after child w w₁ w' t earlier hrun hsame hreport ih =>
    obtain ⟨haccounted, hconsistent⟩ := ih
    have hnext := haccounted.arrived hrun
    obtain ⟨mailbox, position, run⟩ := child
    obtain rfl : mailbox = box :=
      (haccounted.underway _ (List.mem_append_right _ List.mem_cons_self)).1
    exact ⟨hnext, (hconsistent.elsewhere hsame).report answer hnext.arrivals hreport⟩
  | advanced earlier hrun hsame ih => exact ⟨ih.1.advanced hrun, ih.2.elsewhere hsame⟩
  | turned earlier hrun ih =>
    obtain ⟨haccounted, hconsistent⟩ := ih
    obtain ⟨t, w', hpoll, -, hnext⟩ := hconsistent.run_poll answer haccounted.arrivals
    rw [hrun, Option.some.injEq, Prod.mk.injEq, Except.ok.injEq] at hpoll
    obtain ⟨rfl, rfl⟩ := hpoll
    exact ⟨haccounted, hnext⟩
  | elsewhere earlier hsame ih => exact ⟨ih.1, ih.2.elsewhere hsame⟩

end Join

/-- A task has settled with an outcome or settles with it in its next turn. -/
def Settles [Embedding C S] (answer : Answering C S) (w : World C S) (t : Turn C)
    (o : Outcome (Value C)) : Prop :=
  t = .settled o ∨ ∃ run w', t = .pending run ∧ run.poll.run answer w = some (.ok (.settled o), w')

/-- A task has not settled and does not settle in its next turn. -/
def Waits [Embedding C S] (answer : Answering C S) (w : World C S) (t : Turn C) : Prop :=
  ∃ run rest w', t = .pending run ∧ run.poll.run answer w = some (.ok (.pending rest), w')

/-- With a verdict a parallel task has settled with it or settles with it in its next turn, and
without one it waits. -/
theorem Join.Consistent.settles_or_waits [Embedding C S] (answer : Answering C S) {n box : Nat}
    {results : Nat → Outcome (Value C)} {order : List Nat} {w : World C S} {t : Turn C}
    (harrivals : Arrivals n order) (h : Consistent n box results order w t) :
    (∀ o, verdict n results order = some o → Settles answer w t o) ∧
      (verdict n results order = none → Waits answer w t) := by
  cases t with
  | settled o =>
    have hverdict : verdict n results order = some o := h
    refine ⟨fun o' ho' => ?_, fun hnone => ?_⟩
    · exact Or.inl (by rw [Option.some.inj (hverdict.symm.trans ho')])
    · rw [hverdict] at hnone
      cases hnone
  | pending run =>
    obtain ⟨next, w', hpoll, houtcome, -⟩ := h.run_poll answer harrivals
    cases next with
    | settled o =>
      refine ⟨fun o' ho' => Or.inr ⟨run, w', rfl, ?_⟩, fun hnone => ?_⟩
      · rw [Option.some.inj (houtcome.trans ho')] at hpoll
        exact hpoll
      · cases houtcome.trans hnone
    | pending rest =>
      refine ⟨fun o ho => ?_, fun _ => ⟨run, rest, w', rfl, hpoll⟩⟩
      cases houtcome.trans ho

/-- Joining the children of a parallel task, at any point of any history. Each child has been started once
and has reported what its run came to, or is under way and has not reported. When all children have
reported successes, the task settles with the list of their values in the order of the children, however
they arrived. When a failure has arrived, it settles with the first one to arrive. While no failure has
arrived and some child has not, it waits. So it never settles with anything but the outcome of a child or
the values of all children. -/
theorem parallel_joins [Embedding C S] {answer : Answering C S} {children : List (Recipe C)}
    {box : Nat} {results : Nat → Outcome (Value C)} {order : List Nat} {underway : List (Child C)}
    {w : World C S} {t : Turn C} (h : Joining answer children box results order underway w t) :
    Accounted answer children box results order underway ∧
    ((∀ i < children.length, (results i).side = .success) → order.length = children.length →
      Settles answer w t
        ⟨.success, .list ((List.range children.length).map fun i => (results i).value)⟩) ∧
    (∀ before i after, order = before ++ i :: after →
      (∀ k ∈ before, (results k).side = .success) → (results i).side = .failure →
        Settles answer w t (results i)) ∧
    ((∀ k ∈ order, (results k).side = .success) → order.length < children.length →
      Waits answer w t) ∧
    (∀ o, t = .settled o → (∃ i ∈ order, (results i).side = .failure ∧ o = results i) ∨
      ((∀ i < children.length, i ∈ order ∧ (results i).side = .success) ∧
        o = ⟨.success, .list ((List.range children.length).map fun i => (results i).value)⟩)) := by
  obtain ⟨haccounted, hconsistent⟩ := Join.accounted_of_joining h
  have harrivals := haccounted.arrivals
  obtain ⟨hsettles, hwaits⟩ := hconsistent.settles_or_waits answer harrivals
  refine ⟨haccounted, fun hall hlength => ?_, fun before i after horder hbefore hi => ?_,
    fun hsuccess hlength => ?_, fun o ho => ?_⟩
  · apply hsettles
    rw [Join.verdict_of_success _ results fun k hk => hall k (harrivals.lt_of_mem k hk),
      if_pos hlength]
  · apply hsettles
    rw [horder]
    exact Join.verdict_of_failure _ results hbefore hi
  · apply hwaits
    rw [Join.verdict_of_success _ results hsuccess, if_neg (Nat.ne_of_lt hlength)]
  · subst ho
    have hverdict : Join.verdict children.length results order = some o := hconsistent
    exact Join.verdict_eq_some _ results harrivals hverdict

/-- Two children that succeed, the first one a turn later than the second: they report in reverse, with a
turn of the parent in between. -/
theorem parallel_joins_reverse :
    let children : List (Recipe Empty) :=
      [.turns 1 (.settled ⟨.success, .bool true⟩), .settled ⟨.success, .nil⟩]
    let results : Nat → Outcome (Value Empty) := fun i =>
      ⟨.success, if i = 0 then .bool true else .nil⟩
    ∃ (w : World Empty Unit) (t : Turn Empty), Joining (answer 1) children 0 results [1, 0] [] w t ∧
      Settles (answer 1) w t ⟨.success, .list [.bool true, .nil]⟩ := by
  intro children results
  let w : World Empty Unit := ⟨.empty, .empty, .empty, .empty, [], 0, ()⟩
  let first (n : Nat) : Child Empty := ⟨0, 0, .turns n (.settled ⟨.success, .bool true⟩)⟩
  let second : Child Empty := ⟨0, 1, .settled ⟨.success, .nil⟩⟩
  have hsame : ∀ runs v, (children.mapM Recipe.start).run (answer 1) (w.opening children.length) =
      some (.ok runs, v) → v.mailboxes.get? 0 = (w.opening children.length).mailboxes.get? 0 ∧
        ∀ child ∈ v.started, child.mailbox ≠ 0 := by
    intro runs v hrun
    obtain rfl := congrArg Prod.snd (Option.some.inj hrun)
    exact ⟨rfl, fun _ h => absurd h List.not_mem_nil⟩
  have hopened : Joining (answer 1) children 0 results [] ([] ++ first 1 :: [second]) _ _ :=
    .opened (w := w) rfl rfl hsame
  have hgivesUp : Joining (answer 1) children 0 results [] ([first 0] ++ second :: []) _ _ :=
    .advanced hopened rfl rfl
  have hsecond : Joining (answer 1) children 0 results [1] ([] ++ first 0 :: []) _ _ :=
    .arrived hgivesUp rfl rfl rfl
  have hturn : Joining (answer 1) children 0 results [1] ([] ++ first 0 :: []) _ _ :=
    .turned hsecond rfl
  have hfirst : Joining (answer 1) children 0 results [1, 0] [] _ _ := .arrived hturn rfl rfl rfl
  exact ⟨_, _, hfirst, (parallel_joins hfirst).2.1 (by simp [results]) rfl⟩

end DynamicDispatch
