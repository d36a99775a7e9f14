import DynamicDispatch.Proofs.Task.Independence
import DynamicDispatch.Proofs.Task.Laps

/-!
# Every child of a parallel task is carried through

Children of a parallel task whose effects do not depend on each other's, and which settle when they run
alone, are carried through by the scheduler, whatever becomes of the parallel task meanwhile. While they
take their turns, the schedule is made up of their strands: what belongs to a child fits the schedule that
the child would have alone, and a turn of it is a step of its strand or changes nothing. As no strand goes
on for ever, the laps come to an end, and then each strand has come to its end.
-/

namespace DynamicDispatch

variable {C S : Type}

/-- Whether the own run of a strand has not settled. -/
def Strand.isPending (x : Strand C S) : Bool :=
  match x.course with
  | .ahead _ => true
  | .under s => s.main.outcome?.isNone

/-- What a member replaced in a list changes about a count. -/
theorem countP_set_add {α : Type} {p : α → Bool} {l : List α} {i : Nat} {a b : α}
    (h : l[i]? = some a) : (l.set i b).countP p + (p a).toNat = l.countP p + (p b).toNat := by
  obtain ⟨hi, rfl⟩ := List.getElem?_eq_some_iff.mp h
  rw [List.countP_set hi]
  cases hp : p l[i] with
  | false => cases p b <;> simp
  | true =>
    have hpos : 0 < l.countP p := List.countP_pos_iff.mpr ⟨_, List.getElem_mem hi, hp⟩
    cases p b <;> simp <;> omega

variable [Embedding C S]

/-- What holds between two turns while the children of a parallel task are carried through: their strands
are apart in the world and settle, and what waits for its turn or has taken it belongs to them and fits
them. The parallel task has settled, or it waits for the reports of those that have not. -/
structure Carrying (watch : Func C → Bool) (box : Nat)
    (agree : Nat → Set Nat → Strand C S → World C S → Prop)
    (strands : List (Strand C S)) (main : Turn C) (waiting turned : List (Nat × Child C))
    (w : World C S) : Prop where
  apart : Apart box agree strands w
  settles : ∀ {i : Nat} {x : Strand C S}, strands[i]? = some x → x.Settles watch
  elsewhere : ∀ {i : Nat} {x : Strand C S}, strands[i]? = some x →
    ∀ child ∈ x.course.children, child.mailbox ≠ box
  fits : ∀ {i : Nat} {x : Strand C S}, strands[i]? = some x →
    Fits box i x (ownedBy i waiting) (ownedBy i turned)
  owned : ∀ p ∈ waiting ++ turned, p.1 < strands.length
  parent : ∀ {run : Run C}, main = .pending run → ∃ join, run = .joining box join
  mailbox : ∃ reports, w.mailboxes.get? box = some ⟨reports, strands.countP Strand.isPending⟩

variable {watch : Func C → Bool} {box : Nat} {agree : Nat → Set Nat → Strand C S → World C S → Prop}
  {strands : List (Strand C S)} {main : Turn C} {waiting turned : List (Nat × Child C)}
  {w w' : World C S} {i : Nat} {x y : Strand C S}

/-- One strand has got further, and the others are as they were. -/
theorem Carrying.set (h : Carrying watch box agree strands main waiting turned w)
    (reported : Nat) (hi : strands[i]? = some x) {waiting' turned' : List (Nat × Child C)}
    (hapart : Apart box agree (strands.set i y) w') (hsettles : y.Settles watch)
    (helsewhere : ∀ child ∈ y.course.children, child.mailbox ≠ box)
    (hfits : Fits box i y (ownedBy i waiting') (ownedBy i turned'))
    (hothers : ∀ j, i ≠ j →
      ownedBy j waiting' = ownedBy j waiting ∧ ownedBy j turned' = ownedBy j turned)
    (howned : ∀ p ∈ waiting' ++ turned', p ∈ waiting ++ turned ∨ p.1 = i)
    (hcount : x.isPending.toNat = reported + y.isPending.toNat)
    (hmailbox : ∃ reports, w'.mailboxes.get? box =
      some ⟨reports, strands.countP Strand.isPending - reported⟩) :
    Carrying watch box agree (strands.set i y) main waiting' turned' w' := by
  have hlength : i < strands.length := (List.getElem?_eq_some_iff.mp hi).1
  refine ⟨hapart, ?_, ?_, ?_, ?_, h.parent, ?_⟩
  · intro j z hj
    rcases eq_or_of_getElem?_set hj with ⟨rfl, rfl⟩ | ⟨-, hj⟩
    · exact hsettles
    · exact h.settles hj
  · intro j z hj
    rcases eq_or_of_getElem?_set hj with ⟨rfl, rfl⟩ | ⟨-, hj⟩
    · exact helsewhere
    · exact h.elsewhere hj
  · intro j z hj
    rcases eq_or_of_getElem?_set hj with ⟨rfl, rfl⟩ | ⟨hne, hj⟩
    · exact hfits
    · rw [(hothers j hne).1, (hothers j hne).2]
      exact h.fits hj
  · intro p hp
    rw [List.length_set]
    rcases howned p hp with hp | rfl
    · exact h.owned p hp
    · exact hlength
  · obtain ⟨reports, hmailbox⟩ := hmailbox
    have hset := countP_set_add (p := Strand.isPending) (b := y) hi
    refine ⟨reports, hmailbox.trans ?_⟩
    congr 2
    omega

/-- A turn of a child that is a part of the course of its owner: the owner gets further, and its own run
has settled with this turn if the child has reported to the mailbox of the parallel task. -/
def GetsFurther (watch : Func C → Bool) (box : Nat) (agree : Nat → Set Nat → Strand C S → World C S → Prop)
    (strands : List (Strand C S)) (main : Turn C) (i : Nat) (child : Child C)
    (waiting turned : List (Nat × Child C)) (w : World C S) (x : Strand C S) : Prop :=
  ∃ calls left started w' y, (Schedule.childTurn child).Shows watch w calls (.ok (left, started)) w' ∧
    Carrying watch box agree (strands.set i y) main (waiting ++ started.map (i, ·))
      (turned ++ left.toList.map (i, ·)) w' ∧
    x.Walks watch calls y ∧
    x.isPending.toNat = (child.endsFor box left).toNat + y.isPending.toNat

/-- One strand has got further by a turn of a child. -/
theorem Carrying.turn {child : Child C} {started : List (Child C)} {left : Option (Child C)}
    (h : Carrying watch box agree strands main ((i, child) :: waiting) turned w)
    (hi : strands[i]? = some x)
    (hapart : Apart box agree (strands.set i y) w') (hsettles : y.Settles watch)
    (helsewhere : ∀ child ∈ y.course.children, child.mailbox ≠ box)
    (hfits : Fits box i y (ownedBy i waiting ++ started) (ownedBy i turned ++ left.toList))
    (hcount : x.isPending.toNat = (child.endsFor box left).toNat + y.isPending.toNat)
    (hmailbox : ∃ reports, w'.mailboxes.get? box =
      some ⟨reports, strands.countP Strand.isPending - (child.endsFor box left).toNat⟩) :
    Carrying watch box agree (strands.set i y) main (waiting ++ started.map (i, ·))
      (turned ++ left.toList.map (i, ·)) w' := by
  refine h.set _ hi hapart hsettles helsewhere ?_ ?_ ?_ hcount hmailbox
  · simpa only [ownedBy_append, ownedBy_map_self] using hfits
  · intro j hne
    simp only [ownedBy_append, ownedBy_map_ne hne, ownedBy_cons_ne hne, List.append_nil, and_self]
  · intro p hp
    simp only [List.mem_append, List.mem_map] at hp
    rcases hp with (hp | ⟨_, -, rfl⟩) | (hp | ⟨_, -, rfl⟩)
    · exact .inl (List.mem_append_left _ (List.mem_cons_of_mem _ hp))
    · exact .inr rfl
    · exact .inl (List.mem_append_right _ hp)
    · exact .inr rfl

/-- In a lap that its owner has begun, a child gets its owner further. -/
theorem Carrying.turn_underway (hind : Independent watch box agree) {child : Child C}
    (h : Carrying watch box agree strands main ((i, child) :: waiting) turned w) {own : Turn C}
    {rest : List (Child C)} {u : World C S}
    (hi : strands[i]? = some ⟨.under ⟨own, child :: ownedBy i waiting, rest⟩, u⟩)
    (hturned : ownedBy i turned = own.place box i ++ rest) :
    GetsFurther watch box agree strands main i child waiting turned w
      ⟨.under ⟨own, child :: ownedBy i waiting, rest⟩, u⟩ := by
  obtain ⟨calls, r, u', hstep, -⟩ := (h.settles hi).ends (h.apart.nextId_le hi)
  obtain ⟨left, started, -, rfl⟩ := Course.shows_under_cons_iff.mp hstep
  obtain ⟨w', hshows, hapart, hleaves⟩ := h.apart.next hind hi hstep
  obtain ⟨left', started', hturn, heq⟩ := Course.shows_under_cons_iff.mp hshows
  obtain ⟨rfl, rfl⟩ : started = started' ∧ left = left' := by
    cases left <;> cases left' <;> simp_all
  have hnext : Strand.Next watch ⟨.under ⟨own, child :: ownedBy i waiting, rest⟩, u⟩ calls
      ⟨.under ⟨own, ownedBy i waiting ++ started, rest ++ left.toList⟩, u'⟩ :=
    ⟨w.nextId, h.apart.nextId_le hi, hstep⟩
  -- A child that the owner has started reports elsewhere, so that the own run is as it was.
  have helsewhere : child.mailbox ≠ box := h.elsewhere hi child (by simp [Course.children])
  have hends : child.endsFor box left = false := by simp [Child.endsFor, helsewhere]
  have hreported : (child.endsFor box left).toNat = 0 := by rw [hends, Bool.toNat_false]
  have hcount : Bool.toNat own.outcome?.isNone =
      (child.endsFor box left).toNat + Bool.toNat own.outcome?.isNone := by
    rw [hreported, Nat.zero_add]
  have hkept : ∃ reports, w'.mailboxes.get? box =
      some ⟨reports, strands.countP Strand.isPending - (child.endsFor box left).toNat⟩ := by
    rw [hreported, hleaves.mailbox]
    exact h.mailbox
  refine ⟨calls, left, started, w', _, hturn,
    h.turn hi hapart ((h.settles hi).next hnext) hleaves.elsewhere ?_ hcount hkept, .one hnext, hcount⟩
  rw [hturned, List.append_assoc]
  exact .underway

/-- The own turn of a child, as the turn of the main run of its strand: the same is seen of it, and it
reports when the run settles. -/
theorem Schedule.shows_childTurn_own {run : Run C} {t : Turn C} {started : List (Child C)}
    {calls : List (SeenCall C)} {reports : List (Nat × Outcome (Value C))} {senders : Nat}
    (hturn : (mainTurn (.pending run)).Shows watch w calls (.ok (t, started)) w')
    (hmailbox : w'.mailboxes.get? box = some ⟨reports, senders⟩) :
    ∃ left boxes reports', left.toList = t.place box i ∧
      (childTurn ⟨box, i, run⟩).Shows watch w calls (.ok (left, started))
        { w' with mailboxes := boxes } ∧
      (∀ other, other ≠ box → boxes.get? other = w'.mailboxes.get? other) ∧
      boxes.get? box = some ⟨reports', senders - (Child.endsFor box ⟨box, i, run⟩ left).toNat⟩ := by
  rcases shows_mainTurn_iff.mp hturn with ⟨_, w₁, hpoll, hr, rfl⟩ | ⟨_, -, hr⟩ <;> cases hr
  cases t with
  | pending rest =>
    exact ⟨some ⟨box, i, rest⟩, w₁.mailboxes, reports, rfl, shows_childTurn_of_pending hpoll,
      fun _ _ => rfl, by simpa [Child.endsFor] using hmailbox⟩
  | settled o =>
    refine ⟨none, w₁.mailboxes.insert box ⟨reports ++ [(i, o)], senders - 1⟩, reports ++ [(i, o)], rfl,
      shows_childTurn_of_settled hpoll hmailbox, ?_, ?_⟩
    · intro other hne
      rw [Table.get?_insert, if_neg (Ne.symm hne)]
    · simp [Child.endsFor]

/-- A strand that has yet to begin a lap begins it with the turn of its main run. -/
theorem Carrying.lap (hind : Independent watch box agree)
    (h : Carrying watch box agree strands main waiting turned w) {own : Turn C} {rest : List (Child C)}
    {u : World C S} (hi : strands[i]? = some ⟨.under ⟨own, [], rest⟩, u⟩)
    (hadvance : Schedule.canAdvance u ⟨own, [], rest⟩ = true) :
    ∃ calls t started u' w', (Schedule.mainTurn own).Shows watch w calls (.ok (t, started)) w' ∧
      Strand.Next watch ⟨.under ⟨own, [], rest⟩, u⟩ calls ⟨.under ⟨t, rest ++ started, []⟩, u'⟩ ∧
      Apart box agree (strands.set i ⟨.under ⟨t, rest ++ started, []⟩, u'⟩) w' ∧
      LeavesAside box w (.under ⟨t, rest ++ started, []⟩) w' := by
  have halone : Schedule.canAdvance (u.taken w.nextId) ⟨own, [], rest⟩ = true :=
    (Schedule.canAdvance_taken u _ _).trans hadvance
  have hall : Schedule.canAdvance w ⟨own, [], rest⟩ = true :=
    (h.apart.canAdvance_eq hind hi (h.settles hi)).trans hadvance
  obtain ⟨calls, r, u', hstep, -⟩ := (h.settles hi).ends (h.apart.nextId_le hi)
  obtain ⟨t, started, -, rfl⟩ := (Course.shows_under_lap_iff halone).mp hstep
  obtain ⟨w', hshows, hapart, hleaves⟩ := h.apart.next hind hi hstep
  obtain ⟨t', started', hturn, heq⟩ := (Course.shows_under_lap_iff hall).mp hshows
  obtain ⟨rfl, rfl⟩ : t = t' ∧ started = started' := by simpa using heq
  exact ⟨calls, t, started, u', w', hturn, ⟨w.nextId, h.apart.nextId_le hi, hstep⟩, hapart, hleaves⟩

/-- With its own turn, a child gets further that has yet to begin a lap. -/
theorem Carrying.turn_own (hind : Independent watch box agree) {run : Run C}
    (h : Carrying watch box agree strands main ((i, ⟨box, i, run⟩) :: waiting) turned w) {u : World C S}
    (hi : strands[i]? = some ⟨.under ⟨.pending run, [], ownedBy i waiting⟩, u⟩)
    (hturned : ownedBy i turned = [])
    (hadvance : Schedule.canAdvance u ⟨.pending run, [], ownedBy i waiting⟩ = true) :
    GetsFurther watch box agree strands main i ⟨box, i, run⟩ waiting turned w
      ⟨.under ⟨.pending run, [], ownedBy i waiting⟩, u⟩ := by
  obtain ⟨calls, t, started, u', w', hturn, hnext, hapart, hleaves⟩ := h.lap hind hi hadvance
  obtain ⟨reports, hmailbox⟩ := h.mailbox
  obtain ⟨left, boxes, reports', hleft, hown, hothers, hbox⟩ :=
    Schedule.shows_childTurn_own (i := i) hturn (hleaves.mailbox.trans hmailbox)
  have hcount : 1 = (Child.endsFor box ⟨box, i, run⟩ left).toNat +
      Bool.toNat t.outcome?.isNone := by
    cases t <;> cases left <;> simp_all [Child.endsFor, Turn.place, Turn.outcome?]
  refine ⟨calls, left, started, _, _, hown,
    h.turn hi (hapart.aside hind (Nat.le_refl _) hothers) ((h.settles hi).next hnext)
      hleaves.elsewhere ?_ hcount ⟨reports', hbox⟩, .one hnext, hcount⟩
  rw [hturned, hleft, List.nil_append, ← List.append_nil (t.place box i)]
  exact .underway

/-- A strand whose own run has settled begins its lap without doing anything. -/
theorem Carrying.begin_lap (hind : Independent watch box agree) {o : Outcome (Value C)}
    (h : Carrying watch box agree strands main waiting turned w) {rest : List (Child C)} {u : World C S}
    (hi : strands[i]? = some ⟨.under ⟨.settled o, [], rest⟩, u⟩) (hwaiting : ownedBy i waiting = rest)
    (hturned : ownedBy i turned = [])
    (hadvance : Schedule.canAdvance u ⟨.settled o, [], rest⟩ = true) :
    ∃ u', Strand.Next watch ⟨.under ⟨.settled o, [], rest⟩, u⟩ [] ⟨.under ⟨.settled o, rest, []⟩, u'⟩ ∧
      Carrying watch box agree (strands.set i ⟨.under ⟨.settled o, rest, []⟩, u'⟩) main waiting turned
        w := by
  obtain ⟨calls, t, started, u', w', hturn, hnext, hapart, hleaves⟩ := h.lap hind hi hadvance
  obtain ⟨rfl, hr, rfl⟩ := Schedule.shows_mainTurn_settled_iff.mp hturn
  obtain ⟨rfl, rfl⟩ : t = .settled o ∧ started = w.started := by simpa using hr
  have hsame : { w with started := [] } = w := by rw [← h.apart.started]
  rw [h.apart.started, List.append_nil] at hnext hapart hleaves
  rw [hsame] at hapart
  refine ⟨u', hnext, h.set 0 hi hapart ((h.settles hi).next hnext) hleaves.elsewhere ?_
    (fun _ _ => ⟨rfl, rfl⟩) (fun _ hp => .inl hp) rfl h.mailbox⟩
  rw [hwaiting, hturned]
  exact .underway

/-- A child whose owner is idle is left as it is by its turn. -/
theorem Carrying.turn_idle (hind : Independent watch box agree) {child : Child C}
    (h : Carrying watch box agree strands main ((i, child) :: waiting) turned w) {own : Turn C}
    {rest : List (Child C)} {u : World C S} (hi : strands[i]? = some ⟨.under ⟨own, [], rest⟩, u⟩)
    (hall : ownedBy i turned ++ child :: ownedBy i waiting = own.place box i ++ rest)
    (hadvance : Schedule.canAdvance u ⟨own, [], rest⟩ = false) :
    ∃ w', (Schedule.childTurn child).Shows watch w [] (.ok (some child, [])) w' ∧
      Carrying watch box agree strands main waiting (turned ++ [(i, child)]) w' := by
  have hnone : (own.place box i ++ rest).any (·.run.canAdvance w) = false := by
    rw [Turn.any_place, h.apart.canAdvance_eq hind hi (h.settles hi), hadvance]
  have hchild : child.run.canAdvance w = false := by
    rw [← hall] at hnone
    simpa using List.any_eq_false.mp hnone child (by simp)
  obtain ⟨boxes, hboxes, hturn⟩ :=
    Schedule.shows_childTurn_of_not_canAdvance watch hchild h.apart.started
  refine ⟨_, hturn, h.apart.aside hind (Nat.le_refl _) fun other _ => hboxes other, h.settles,
    h.elsewhere, ?_, ?_, h.parent, (hboxes box).symm ▸ h.mailbox⟩
  · intro j x hj
    by_cases hne : i = j
    · subst hne
      obtain rfl := Option.some.inj (hi.symm.trans hj)
      refine .before ?_ (.inr hadvance)
      simpa using hall
    · have hfits := h.fits hj
      rw [ownedBy_cons_ne hne] at hfits
      simpa [ownedBy_cons_ne hne] using hfits
  · intro p hp
    refine h.owned p ?_
    simp only [List.mem_append, List.mem_cons, List.not_mem_nil, or_false] at hp ⊢
    tauto

/-- The turn of a child gets its owner further, or the owner is idle and nothing changes. -/
theorem Carrying.childTurn (hind : Independent watch box agree) {child : Child C}
    (h : Carrying watch box agree strands main ((i, child) :: waiting) turned w) :
    ∃ x, strands[i]? = some x ∧
      (GetsFurther watch box agree strands main i child waiting turned w x ∨
        x.Idle ∧ ∃ w', (Schedule.childTurn child).Shows watch w [] (.ok (some child, [])) w' ∧
          Carrying watch box agree strands main waiting (turned ++ [(i, child)]) w') := by
  have hlength : i < strands.length := h.owned _ List.mem_cons_self
  have hi := List.getElem?_eq_getElem hlength
  refine ⟨_, hi, ?_⟩
  generalize strands[i] = x at hi
  have hfits := h.fits hi
  rw [ownedBy_cons_self] at hfits
  generalize hwaiting : child :: ownedBy i waiting = own at hfits
  generalize hturned : ownedBy i turned = taken at hfits
  cases hfits with
  | underway =>
    subst hwaiting
    exact .inl (h.turn_underway hind hi hturned)
  | @before t rest _ _ u hall hidle =>
    subst hwaiting hturned
    cases hadvance : Schedule.canAdvance u ⟨t, [], rest⟩ with
    | false => exact .inr ⟨⟨_, rfl, rfl, hadvance⟩, h.turn_idle hind hi hall hadvance⟩
    | true =>
      left
      have hnone : ownedBy i turned = [] := hidle.resolve_right (by simp [hadvance])
      rw [hnone, List.nil_append] at hall
      cases t with
      | pending run =>
        obtain ⟨rfl, rfl⟩ := List.cons.inj hall
        exact h.turn_own hind hi hnone hadvance
      | settled o =>
        -- The strand begins its lap first, and the lap with the child.
        obtain rfl : child :: ownedBy i waiting = rest := hall
        obtain ⟨u', hnext, h'⟩ := h.begin_lap hind hi ownedBy_cons_self hnone hadvance
        obtain ⟨calls, left, started, w', y, hturn, hcarrying, hwalks, hcount⟩ :=
          h'.turn_underway hind (List.getElem?_set_self hlength) hnone
        rw [List.set_set] at hcarrying
        exact ⟨calls, left, started, w', y, hturn, hcarrying, .more hnext hwalks, hcount⟩

/-- With no sender left, reading the reports ends the join. -/
theorem Join.drain_zero (j : Join C) (reports : List (Nat × Outcome (Value C))) :
    ∃ o, j.drain 0 reports = .inl o := by
  induction reports generalizing j with
  | nil =>
    rw [drain]
    split
    · exact ⟨_, rfl⟩
    · exact ⟨_, rfl⟩
  | cons report reports ih =>
    obtain ⟨position, outcome⟩ := report
    rw [drain]
    split
    · exact ⟨_, rfl⟩
    · cases outcome.side with
      | failure => exact ⟨_, rfl⟩
      | success => exact ih _

/-- The turn of the parallel task itself reads the reports: nothing is seen of it, it starts nothing, and it
settles when all of its children have reported. -/
theorem Carrying.parentTurn (hind : Independent watch box agree)
    (h : Carrying watch box agree strands main [] turned w) :
    ∃ main' w', (Schedule.mainTurn main).Shows watch w [] (.ok (main', [])) w' ∧
      Carrying watch box agree strands main' turned [] w' ∧
      (strands.countP Strand.isPending = 0 → ∃ o, main' = .settled o) := by
  have hagain : ∀ {i x}, strands[i]? = some x → Fits box i x (ownedBy i turned) (ownedBy i []) :=
    fun hi => (h.fits hi).again
  have howned : ∀ p ∈ turned ++ [], p.1 < strands.length := by
    rw [List.append_nil]
    exact h.owned
  cases main with
  | settled o =>
    have hsame : { w with started := [] } = w := by rw [← h.apart.started]
    refine ⟨.settled o, w, Schedule.shows_mainTurn_settled_iff.mpr ⟨rfl, ?_, hsame.symm⟩,
      ⟨h.apart, h.settles, h.elsewhere, hagain, howned, h.parent, h.mailbox⟩, fun _ => ⟨o, rfl⟩⟩
    rw [h.apart.started]
  | pending run =>
    obtain ⟨join, rfl⟩ := h.parent rfl
    obtain ⟨reports, hmailbox⟩ := h.mailbox
    have hread : (Run.joining box join).poll.Shows watch w [] _ _ :=
      Join.shows_read watch join hmailbox
    have hothers : ∀ other, other ≠ box → (w.mailboxes.insert box
        ⟨[], strands.countP Strand.isPending⟩).get? other = w.mailboxes.get? other := by
      intro other hne
      rw [Table.get?_insert, if_neg (Ne.symm hne)]
    have hapart := h.apart.aside hind (Nat.le_refl _) hothers
    obtain ⟨_, _, _, boxes, started, _, _⟩ := w
    obtain rfl : started = [] := h.apart.started
    have hturn := Schedule.shows_mainTurn_iff.mpr (Or.inl ⟨_, _, hread, rfl, rfl⟩)
    refine ⟨_, _, hturn,
      ⟨hapart, h.settles, h.elsewhere, hagain, howned, Join.joining_of_turn, [],
        Table.get?_insert_self _ _ _⟩, ?_⟩
    intro hzero
    obtain ⟨o, ho⟩ := Join.drain_zero join reports
    simp only [hzero, ho, Join.turn]
    exact ⟨o, rfl⟩

/-- The turns that were taken on behalf of a strand show its course to the end, the world agrees with the one
that the strand has made for itself, and its own run has come to its end once if it had not before. -/
structure Carried (watch : Func C → Bool) (box : Nat)
    (agree : Nat → Set Nat → Strand C S → World C S → Prop) (i : Nat) (x : Strand C S)
    (turns : List (TakenTurn C)) (w' : World C S) : Prop where
  goes : ∃ o y, x.Goes watch (TakenTurn.callsOf i turns) o y ∧ ∃ own, Agreeing box agree i own y w'
  once : TakenTurn.endings box i turns = x.isPending.toNat

/-- The children are carried through: driving the schedule comes to an end, with an outcome of the parallel
task, and each strand has been carried through. -/
def Finishes (watch : Func C → Bool) (box : Nat) (agree : Nat → Set Nat → Strand C S → World C S → Prop)
    (strands : List (Strand C S)) (main : Turn C) (waiting turned : List (Nat × Child C))
    (w : World C S) : Prop :=
  ∃ turns o w', Carries watch main waiting turned w turns (some o) w' ∧
    ∀ {i x}, strands[i]? = some x → Carried watch box agree i x turns w'

/-- Before the rest, a child takes its turn. -/
theorem Finishes.child {child : Child C} {left : Option (Child C)} {started : List (Child C)}
    {calls : List (SeenCall C)}
    (h : Finishes watch box agree (strands.set i y) main (waiting ++ started.map (i, ·))
      (turned ++ left.toList.map (i, ·)) w')
    (hturn : (Schedule.childTurn child).Shows watch w calls (.ok (left, started)) w')
    (hi : strands[i]? = some x)
    (hgoes : ∀ later o z, y.Goes watch later o z → x.Goes watch (calls ++ later) o z)
    (hcount : x.isPending.toNat = (child.endsFor box left).toNat + y.isPending.toNat) :
    Finishes watch box agree strands main ((i, child) :: waiting) turned w := by
  obtain ⟨turns, o, w'', hcarries, hcarried⟩ := h
  refine ⟨_, o, w'', .child hturn hcarries, ?_⟩
  intro j z hj
  by_cases hne : i = j
  · subst hne
    obtain rfl := Option.some.inj (hi.symm.trans hj)
    obtain ⟨⟨o, last, hy, hagree⟩, honce⟩ :=
      hcarried (List.getElem?_set_self (List.getElem?_eq_some_iff.mp hi).1)
    refine ⟨⟨o, last, ?_, hagree⟩, ?_⟩
    · rw [TakenTurn.callsOf_cons_self]
      exact hgoes _ _ _ hy
    · rw [TakenTurn.endings_cons_self, honce, hcount, Nat.add_comm]
  · obtain ⟨⟨o, last, hz, hagree⟩, honce⟩ := hcarried ((List.getElem?_set_ne hne).trans hj)
    refine ⟨⟨o, last, ?_, hagree⟩, ?_⟩
    · rw [TakenTurn.callsOf_cons_ne hne]
      exact hz
    · rw [TakenTurn.endings_cons_ne hne, honce]

/-- The own run of an idle strand that settles is not pending. -/
theorem Strand.Idle.isPending_eq (h : x.Idle) (hsettles : x.Settles watch) : x.isPending = false := by
  obtain ⟨o, s, hcourse, hmain⟩ := h.main_settled hsettles
  rw [Strand.isPending, hcourse]
  simp only [hmain, Turn.outcome?, Option.isNone_some]

/-- An idle strand is carried through without a turn. -/
theorem Strand.Idle.carried (h : x.Idle) (hsettles : x.Settles watch)
    (hagree : ∃ own, Agreeing box agree i own x w) : Carried watch box agree i x [] w := by
  refine ⟨?_, by rw [h.isPending_eq hsettles]; rfl⟩
  obtain ⟨o, s, hcourse, hmain⟩ := h.main_settled hsettles
  obtain ⟨s', hcourse', hover⟩ := h.over watch x.world.nextId
  obtain rfl : s = s' := Course.under.inj (hcourse.symm.trans hcourse')
  rw [hmain] at hover
  exact ⟨o, x, .over (Nat.le_refl _) hover, hagree⟩

/-- After a lap, a strand is idle when nothing that belongs to it gets any further. -/
theorem Carrying.idle_iff (hind : Independent watch box agree)
    (h : Carrying watch box agree strands main [] turned w) (hi : strands[i]? = some x) :
    x.Idle ↔ ∀ child ∈ ownedBy i turned, child.run.canAdvance w = false := by
  obtain ⟨own, rest, hcourse, htaken⟩ := (h.fits hi).lap
  obtain ⟨course, u⟩ := x
  obtain rfl : course = .under ⟨own, [], rest⟩ := hcourse
  have hsame := h.apart.canAdvance_eq hind hi (h.settles hi)
  rw [← Turn.any_place box i] at hsame
  rw [htaken]
  constructor
  · rintro ⟨s, hs, -, hadvance⟩ child hchild
    cases hs
    rw [hadvance, List.any_eq_false] at hsame
    simpa using hsame child hchild
  · intro hnone
    refine ⟨_, rfl, rfl, ?_⟩
    rw [← hsame, List.any_eq_false]
    intro child hchild
    simp [hnone child hchild]

/-- When all strands are idle, none is pending. -/
theorem Carrying.countP_eq_zero (h : Carrying watch box agree strands main waiting turned w)
    (hidle : ∀ {i : Nat} {x : Strand C S}, strands[i]? = some x → x.Idle) :
    strands.countP Strand.isPending = 0 := by
  rw [List.countP_eq_zero]
  intro x hx
  obtain ⟨i, hi⟩ := List.mem_iff_getElem?.mp hx
  simp [(hidle hi).isPending_eq (h.settles hi)]

/-- After a lap in which all have come to their end, driving is over. -/
theorem Carrying.finishes_of_over (hind : Independent watch box agree)
    (h : Carrying watch box agree strands main [] turned w)
    (hidle : ∀ {i : Nat} {x : Strand C S}, strands[i]? = some x → x.Idle)
    (hmain : ∃ o, main = .settled o) : Finishes watch box agree strands main [] turned w := by
  obtain ⟨o, rfl⟩ := hmain
  refine ⟨[], o, w, .ended ?_, fun hi =>
    (hidle hi).carried (h.settles hi) (h.apart.exists_agreeing hi)⟩
  rw [Schedule.canAdvance, Turn.canAdvance, Bool.false_or, List.any_eq_false]
  intro child hchild
  obtain ⟨⟨i, _⟩, hmem, rfl⟩ := List.mem_map.mp hchild
  have hi := List.getElem?_eq_getElem (h.owned _ (List.mem_append_right _ hmem))
  simp [(h.idle_iff hind hi).mp (hidle hi) _ (mem_ownedBy.mpr hmem)]

/-- After a lap from which nothing gets any further, all have come to their end. -/
theorem Carrying.over_of_not_canAdvance (hind : Independent watch box agree)
    (h : Carrying watch box agree strands main [] turned w)
    (hadvance : Schedule.canAdvance w ⟨main, [], turned.map (·.2)⟩ = false) :
    (∀ {i : Nat} {x : Strand C S}, strands[i]? = some x → x.Idle) ∧ ∃ o, main = .settled o := by
  rw [Schedule.canAdvance, Bool.or_eq_false_iff, List.any_eq_false] at hadvance
  obtain ⟨hmain, hturned⟩ := hadvance
  have hidle : ∀ {i : Nat} {x : Strand C S}, strands[i]? = some x → x.Idle := by
    intro i x hi
    refine (h.idle_iff hind hi).mpr fun child hchild => ?_
    simpa using hturned child (List.mem_map.mpr ⟨_, mem_ownedBy.mp hchild, rfl⟩)
  refine ⟨hidle, ?_⟩
  cases main with
  | settled o => exact ⟨o, rfl⟩
  | pending run =>
    -- All children have reported, so that the parallel task would get further.
    obtain ⟨join, rfl⟩ := h.parent rfl
    obtain ⟨reports, hmailbox⟩ := h.mailbox
    rw [h.countP_eq_zero hidle] at hmailbox
    simp [Turn.canAdvance, Run.canAdvance, hmailbox] at hmain

/-- The turns of a lap: when the children that wait for theirs are carried through once some strand has got
further, or once the lap is over without that, they are carried through. -/
theorem Carrying.finishes_of_lap (hind : Independent watch box agree) {P : List (Nat × Child C) → Prop}
    (hfurther : ∀ {i x calls y}, strands[i]? = some x → x.Walks watch calls y → ∀ {waiting turned w},
      Carrying watch box agree (strands.set i y) main waiting turned w →
        Finishes watch box agree (strands.set i y) main waiting turned w)
    (hidle : ∀ {i child waiting x}, P ((i, child) :: waiting) → strands[i]? = some x → x.Idle →
      P waiting)
    (hover : ∀ {turned w}, P [] → Carrying watch box agree strands main [] turned w →
      Finishes watch box agree strands main [] turned w)
    (hP : P waiting) (h : Carrying watch box agree strands main waiting turned w) :
    Finishes watch box agree strands main waiting turned w := by
  induction waiting generalizing turned w with
  | nil => exact hover hP h
  | cons p waiting ih =>
    obtain ⟨i, child⟩ := p
    obtain ⟨x, hi, hturn⟩ := h.childTurn hind
    rcases hturn with ⟨calls, left, started, w', y, hturn, h', hwalks, hcount⟩ | ⟨hx, w', hturn, h'⟩
    · exact (hfurther hi hwalks h').child hturn hi (fun _ _ _ => hwalks.goes) hcount
    · have hset : strands.set i x = strands := by
        obtain ⟨hlength, rfl⟩ := List.getElem?_eq_some_iff.mp hi
        exact List.set_getElem_self hlength
      have hrest := ih (hidle hP hi hx) h'
      refine Finishes.child ?_ hturn hi (fun _ _ _ hgoes => hgoes) ?_
      · rw [hset]
        simpa using hrest
      · simp [Child.endsFor]

/-- The children are carried through when they are whenever some strand has got further. -/
theorem Carrying.finishes_of_further (hind : Independent watch box agree)
    (hfurther : ∀ {i x calls y}, strands[i]? = some x → x.Walks watch calls y →
      ∀ {main waiting turned w}, Carrying watch box agree (strands.set i y) main waiting turned w →
        Finishes watch box agree (strands.set i y) main waiting turned w)
    (h : Carrying watch box agree strands main waiting turned w) :
    Finishes watch box agree strands main waiting turned w := by
  refine h.finishes_of_lap hind (P := fun _ => True) (fun hi hwalks => hfurther hi hwalks)
    (fun _ _ _ => trivial) ?_ trivial
  intro turned w _ h
  cases hadvance : Schedule.canAdvance w ⟨main, [], turned.map (·.2)⟩ with
  | false =>
    obtain ⟨hidle, hmain⟩ := h.over_of_not_canAdvance hind hadvance
    exact h.finishes_of_over hind hidle hmain
  | true =>
    obtain ⟨main', w', hturn, h', hsettled⟩ := h.parentTurn hind
    have hnext : Finishes watch box agree strands main' turned [] w' := by
      by_cases hidle : ∀ {i : Nat} {x : Strand C S}, strands[i]? = some x → x.Idle
      · -- Only the parallel task gets further, and it settles.
        have hmain := hsettled (h.countP_eq_zero hidle)
        exact h'.finishes_of_lap hind (P := fun _ => True) (fun hi hwalks => hfurther hi hwalks)
          (fun _ _ _ => trivial) (fun _ h => h.finishes_of_over hind hidle hmain) trivial
      · -- Some strand gets further when the first of what belongs to it takes its turn, if not before.
        have hready : ∃ p ∈ turned, ∃ x, strands[p.1]? = some x ∧ ¬ x.Idle := by
          push Not at hidle
          obtain ⟨i, x, hi, hx⟩ := hidle
          obtain ⟨child, hchild, -⟩ : ∃ child ∈ ownedBy i turned, child.run.canAdvance w ≠ false := by
            simpa using mt (h.idle_iff hind hi).mpr hx
          exact ⟨(i, child), mem_ownedBy.mp hchild, x, hi, hx⟩
        refine h'.finishes_of_lap hind
          (P := fun waiting => ∃ p ∈ waiting, ∃ x, strands[p.1]? = some x ∧ ¬ x.Idle)
          (fun hi hwalks => hfurther hi hwalks) ?_ ?_ hready
        · rintro i child waiting x ⟨p, hp, y, hy, hbusy⟩ hi hx
          rcases List.mem_cons.mp hp with rfl | hp
          · exact absurd (Option.some.inj (hi.symm.trans hy) ▸ hx) hbusy
          · exact ⟨p, hp, y, hy, hbusy⟩
        · rintro turned w ⟨p, hp, -⟩ _
          exact absurd hp List.not_mem_nil
    obtain ⟨turns, o, w'', hcarries, hcarried⟩ := hnext
    exact ⟨turns, o, w'', .lap hadvance hturn hcarries, hcarried⟩

/-- One of some strands has got further. -/
inductive Further (watch : Func C → Bool) : List (Strand C S) → List (Strand C S) → Prop
  | head {x y : Strand C S} {calls : List (SeenCall C)} {strands : List (Strand C S)}
      (h : x.Walks watch calls y) : Further watch (y :: strands) (x :: strands)
  | tail {x : Strand C S} {strands strands' : List (Strand C S)}
      (h : Further watch strands' strands) : Further watch (x :: strands') (x :: strands)

/-- The strand at a position has got further. -/
theorem Further.set {calls : List (SeenCall C)} (hi : strands[i]? = some x)
    (h : x.Walks watch calls y) : Further watch (strands.set i y) strands := by
  induction strands generalizing i with
  | nil => cases hi
  | cons z strands ih =>
    cases i with
    | zero =>
      cases hi
      exact .head h
    | succ i => exact .tail (ih hi)

/-- Strands none of which goes on for ever do not get further for ever. -/
theorem acc_further_cons (hx : Acc (fun y x : Strand C S => ∃ calls, x.Walks watch calls y) x)
    (hstrands : Acc (Further watch) strands) : Acc (Further watch) (x :: strands) := by
  induction hx generalizing strands with
  | intro x _ ihx =>
    induction hstrands with
    | intro strands hstrands ih =>
      refine Acc.intro _ ?_
      rintro _ (hhead | htail)
      · exact ihx _ ⟨_, hhead⟩ (Acc.intro _ hstrands)
      · exact ih _ htail

/-- Strands that settle do not get further for ever. -/
theorem acc_further (h : ∀ x ∈ strands, x.Settles watch) : Acc (Further watch) strands := by
  induction strands with
  | nil =>
    refine Acc.intro _ ?_
    rintro _ ⟨⟩
  | cons x strands ih =>
    exact acc_further_cons (h x List.mem_cons_self).acc
      (ih fun y hy => h y (List.mem_cons_of_mem _ hy))

/-- The children are carried through. -/
theorem Carrying.finishes (hind : Independent watch box agree)
    (h : Carrying watch box agree strands main waiting turned w) :
    Finishes watch box agree strands main waiting turned w := by
  have hacc : Acc (Further watch) strands := by
    refine acc_further fun x hx => ?_
    obtain ⟨i, hi⟩ := List.mem_iff_getElem?.mp hx
    exact h.settles hi
  induction hacc generalizing main waiting turned w with
  | intro strands _ ih =>
    exact h.finishes_of_further hind fun hi hwalks => ih _ (.set hi hwalks)

end DynamicDispatch
