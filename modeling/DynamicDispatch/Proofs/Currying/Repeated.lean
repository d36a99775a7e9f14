import DynamicDispatch.Proofs.Action.Simulation
import DynamicDispatch.Proofs.Currying.Sessions
import Mathlib.Data.List.Forall2

/-!
# Currying a curried function

A function that is curried to `n` parameters twice stands behind two functions that collect, each with
holes, nils for missing values and a cut of its own. Nobody can tell it from one that is curried once:
in every sequence of calls on the function and on the partial applications that it gives, with any
arguments, corresponding calls either both collect, and give functions that look the same, or both call
the function behind once, on the same arguments, and end as this call does.

What carries the induction along a sequence is that the functions at hand on the two sides are twins:
they hold the same slots, for functions that pass complete arguments on to the one behind.
-/

namespace DynamicDispatch

variable {C S : Type}

/-- One call of a sequence: which of the functions at hand is called, and on what. The function that the
sequence is about is at hand at 0, and what call number `k` gave at `k + 1`. -/
structure Move (C : Type) where
  position : Nat
  args : List (Value C)

/-- A call that was made, the world that it was made in, and what one who watches saw of it. -/
structure Played (C S : Type) where
  move : Move C
  world : World C S
  seen : Sight C S (Value C)

namespace Played

/-- The call and its world, without what was seen. -/
def occasion (t : Played C S) : Move C × World C S := (t.move, t.world)

/-- The partial application that a call gave: the function it ended with, having called nothing. -/
def partial? (t : Played C S) : Option (Func C) :=
  match t.seen.calls, t.seen.result with
  | [], .ok (.func p) => some p
  | _, _ => none

end Played

/-- A sequence of calls, each on a function at hand, beginning with those in `hand`. Between two calls
anything may happen to the world. -/
inductive Plays [Embedding C S] (watch : Func C → Bool) :
    List (Option (Func C)) → List (Played C S) → Prop
  | stop {hand : List (Option (Func C))} : Plays watch hand []
  | move {hand : List (Option (Func C))} {t : Played C S} {play : List (Played C S)} {p : Func C}
      (callee : hand[t.move.position]? = some (some p))
      (shown : (p.body t.move.args).Shows watch t.world t.seen.calls t.seen.result t.seen.world)
      (rest : Plays watch (hand ++ [t.partial?]) play) : Plays watch hand (t :: play)

/-- What is seen of two corresponding calls, each in its own world. -/
inductive Likewise [Embedding C S] (f : Func C) : Played C S → Played C S → Prop
  /-- Both call nothing, take one identity and give a function; the two have the same name and the same
  arity. -/
  | collected {move : Move C} {w v : World C S} {p q : Func C} (name : p.name = q.name)
      (arity : p.arity = q.arity) :
      Likewise f ⟨move, w, [], .ok (.func p), w.minted 1⟩ ⟨move, v, [], .ok (.func q), v.minted 1⟩
  /-- Both call `f` once, on the same arguments, and end as it ends there. -/
  | called {move : Move C} {w w' v v' : World C S} {args : List (Value C)}
      {r s : Except Error (Value C)} (left : (call f args).Yields w r w')
      (right : (call f args).Yields v s v') :
      Likewise f ⟨move, w, [⟨f, args, r⟩], r, w'⟩ ⟨move, v, [⟨f, args, s⟩], s, v'⟩

namespace Currying

variable [Embedding C S] {watch : Func C → Bool} {n : Nat} {f g p q t : Func C}
  {slots args : List (Value C)}

variable (S watch n f) in
/-- For one who watches, a function has the name of `f`, and calling it on complete arguments is calling
`f` on them. -/
structure PassesOn (t : Func C) : Prop where
  name_eq : t.name = f.name
  alike : ∀ args, Complete n args →
    Action.Alike watch Eq (call t args : Action C S (Value C)) (call f args)

/-- A function passes on to itself. -/
theorem PassesOn.refl : PassesOn S watch n f f := ⟨rfl, fun _ _ => .refl _⟩

/-- A function that collects for `f` and is not watched passes complete arguments on to it at once. -/
theorem Collects.passesOn (hg : Collects n f [] g) (hname : g.name = f.name)
    (hwatch : watch g = false) : PassesOn S watch n f g :=
  ⟨hname, fun _ hargs => hg.alike_call hwatch hargs.2 hargs.1⟩

/-- Given enough, what collects for a function that passes on to `f` is seen to call `f`. -/
theorem Collects.alike_body (hp : Collects n t slots p) (ht : PassesOn S watch n f t)
    (henough : n ≤ given ((fill slots args).take n)) :
    Action.Alike watch Eq (p.body args : Action C S (Value C)) (call f ((fill slots args).take n)) := by
  rw [hp.body_of_le_given henough]
  exact ht.alike _ (complete_take henough)

variable (S watch n f) in
/-- Functions that look the same and hold the same slots, each for a function that passes on to `f`. -/
structure Twins (p q : Func C) : Prop where
  name_eq : p.name = q.name
  arity_eq : p.arity = q.arity
  collects : ∃ slots t u, PassesOn S watch n f t ∧ PassesOn S watch n f u ∧
    Collects n t slots p ∧ Collects n u slots q

theorem Twins.symm (h : Twins S watch n f p q) : Twins S watch n f q p := by
  obtain ⟨slots, t, u, ht, hu, hp, hq⟩ := h.collects
  exact ⟨h.name_eq.symm, h.arity_eq.symm, slots, u, t, hu, ht, hq, hp⟩

/-- A call that can be made of a function can be made of its twin, in the same world. -/
theorem Twins.exists_shows (h : Twins S watch n f p q) {w w' : World C S} {calls : List (SeenCall C)}
    {r : Except Error (Value C)} (hp : (p.body args).Shows watch w calls r w') :
    ∃ s : Sight C S (Value C), (q.body args).Shows watch w s.calls s.result s.world := by
  obtain ⟨slots, t, u, ht, hu, hpt, hqu⟩ := h.collects
  rcases Nat.lt_or_ge (given ((fill slots args).take n)) n with hfew | henough
  · exact ⟨⟨_, _, _⟩, hqu.shows_body_of_given_lt watch hfew w⟩
  · have hpq := (hpt.alike_body ht henough).trans (hqu.alike_body hu henough).symm
    exact ⟨⟨calls, r, w'⟩, (Action.alike_eq_iff.mp hpq _ _ _ _).mp hp⟩

/-- Of the same call of twins the same is seen, and if they give functions, these are twins again. -/
theorem Twins.likewise (hf : watch f = true) (h : Twins S watch n f p q) {a b : Played C S}
    (hmove : a.move = b.move)
    (ha : (p.body a.move.args).Shows watch a.world a.seen.calls a.seen.result a.seen.world)
    (hb : (q.body b.move.args).Shows watch b.world b.seen.calls b.seen.result b.seen.world) :
    Likewise f a b ∧ Option.Rel (Twins S watch n f) a.partial? b.partial? := by
  obtain ⟨slots, t, u, ht, hu, hpt, hqu⟩ := h.collects
  obtain ⟨move, w, calls, r, w'⟩ := a
  obtain ⟨move', v, calls', s, v'⟩ := b
  obtain rfl : move = move' := hmove
  change (p.body move.args).Shows watch w calls r w' at ha
  change (q.body move.args).Shows watch v calls' s v' at hb
  have hname : t.name = u.name := ht.name_eq.trans hu.name_eq.symm
  rcases Nat.lt_or_ge (given ((fill slots move.args).take n)) n with hfew | henough
  · obtain ⟨rfl, rfl, rfl⟩ := ha.unique (hpt.shows_body_of_given_lt watch hfew w)
    obtain ⟨rfl, rfl, rfl⟩ := hb.unique (hqu.shows_body_of_given_lt watch hfew v)
    exact ⟨.collected hname rfl, .some ⟨hname, rfl, _, t, u, ht, hu, Or.inl rfl, Or.inl rfl⟩⟩
  · have hleft := (Action.alike_eq_iff.mp (hpt.alike_body ht henough) _ _ _ _).mp ha
    have hright := (Action.alike_eq_iff.mp (hqu.alike_body hu henough) _ _ _ _).mp hb
    obtain rfl := hleft.calls_eq_of_watched hf
    obtain rfl := hright.calls_eq_of_watched hf
    exact ⟨.called hleft.yields hright.yields, .none⟩

/-- What is at hand on one side has its twin at hand on the other. -/
theorem Twins.at_hand {hand hand' : List (Option (Func C))}
    (h : List.Forall₂ (Option.Rel (Twins S watch n f)) hand hand') {i : Nat}
    (hp : hand[i]? = some (some p)) : ∃ q, hand'[i]? = some (some q) ∧ Twins S watch n f p q := by
  induction h generalizing i with
  | nil => cases hp
  | cons hfirst _ ih =>
    cases i with
    | zero =>
      cases hfirst with
      | none => cases hp
      | some htwins =>
        cases hp
        exact ⟨_, rfl, htwins⟩
    | succ i => exact ih hp

/-- With twins at hand, a sequence of calls on one side can be made on the other, from the same worlds. -/
theorem Twins.exists_plays (hf : watch f = true) {hand hand' : List (Option (Func C))}
    (htwins : List.Forall₂ (Option.Rel (Twins S watch n f)) hand hand') {play : List (Played C S)}
    (h : Plays watch hand play) :
    ∃ play', Plays watch hand' play' ∧ play'.map Played.occasion = play.map Played.occasion := by
  induction h generalizing hand' with
  | stop => exact ⟨[], .stop, rfl⟩
  | @move hand a play p callee shown rest ih =>
    obtain ⟨q, callee', hpq⟩ := at_hand htwins callee
    obtain ⟨seen, shown'⟩ := hpq.exists_shows shown
    let b : Played C S := ⟨a.move, a.world, seen⟩
    obtain ⟨-, hpartial⟩ := hpq.likewise hf (a := a) (b := b) rfl shown shown'
    obtain ⟨play', hplay', hmap⟩ := ih (List.rel_append htwins (.cons hpartial .nil))
    exact ⟨b :: play', .move callee' shown' hplay', by rw [List.map_cons, List.map_cons, hmap]; rfl⟩

/-- With twins at hand, of the same sequence of calls the same is seen on both sides. -/
theorem Twins.forall₂_likewise (hf : watch f = true) {hand hand' : List (Option (Func C))}
    (htwins : List.Forall₂ (Option.Rel (Twins S watch n f)) hand hand') {play play' : List (Played C S)}
    (h : Plays watch hand play) (h' : Plays watch hand' play')
    (hmoves : play.map Played.move = play'.map Played.move) : List.Forall₂ (Likewise f) play play' := by
  induction h generalizing hand' play' with
  | stop =>
    obtain rfl := List.map_eq_nil_iff.mp hmoves.symm
    exact .nil
  | @move hand a play p callee shown rest ih =>
    cases h' with
    | stop => cases hmoves
    | @move _ b play' q callee' shown' rest' =>
      obtain ⟨hmove, hmoves⟩ := List.cons.inj hmoves
      obtain ⟨q', hq', hpq⟩ := at_hand htwins callee
      rw [hmove, callee', Option.some.injEq, Option.some.injEq] at hq'
      obtain ⟨hlike, hpartial⟩ := (hq' ▸ hpq).likewise hf hmove shown shown'
      exact .cons hlike (ih (List.rel_append htwins (.cons hpartial .nil)) rest' hmoves)

/-- Curried twice and curried once are twins. -/
theorem twins_curryN (hn : 2 ≤ n) (id id' : Nat) (hbetween : watch ((curryN n f).run id).1 = false) :
    Twins S watch n f ((curryN n f >>= curryN n).run id).1 ((curryN n f).run id').1 := by
  let between : Func C := ((curryN n f).run id).1
  have htwice : ((curryN n f >>= curryN n).run id).1 =
      ((curryN n between).run ((curryN n f).run id).2).1 := rfl
  have hname : between.name = f.name := by simp only [between, run_curryN hn]
  refine ⟨?_, ?_, [], between, f, ?_, .refl, ?_, curryN_collects hn f id'⟩
  · simp only [htwice, run_curryN hn, hname]
  · simp only [htwice, run_curryN hn]
  · exact (curryN_collects hn f id).passesOn hname hbetween
  · rw [htwice]
    exact curryN_collects hn between _

end Currying

/-- Nobody can tell a function that is curried to `n` parameters twice from one that is curried once, as
long as the function in between is not watched itself. They have the same name and arity. The same
sequences of calls can be made on both, on the function or on partial applications that earlier calls
gave, with any arguments, from the same worlds. And in the same sequence, from whatever worlds on the two
sides, corresponding calls either both give functions of the same name and arity and do nothing else, or
both call `f` once, on the same arguments, and end as it ends. -/
theorem currying_again_is_unobservable [Embedding C S] {n : Nat} (hn : 2 ≤ n) (f : Func C)
    (id id' : Nat) {watch : Func C → Bool} (hf : watch f = true)
    (hbetween : watch ((curryN n f).run id).1 = false) :
    let twice : Func C := ((curryN n f >>= curryN n).run id).1
    let once : Func C := ((curryN n f).run id').1
    (twice.name = once.name ∧ twice.arity = once.arity) ∧
    (∀ occasions : List (Move C × World C S),
      (∃ play, Plays watch [some twice] play ∧ play.map Played.occasion = occasions) ↔
        ∃ play, Plays watch [some once] play ∧ play.map Played.occasion = occasions) ∧
    (∀ play play' : List (Played C S), Plays watch [some twice] play → Plays watch [some once] play' →
      play.map Played.move = play'.map Played.move → List.Forall₂ (Likewise f) play play') := by
  intro twice once
  have htwins : Currying.Twins S watch n f twice once := Currying.twins_curryN hn id id' hbetween
  have hhand : List.Forall₂ (Option.Rel (Currying.Twins S watch n f)) [some twice] [some once] :=
    .cons (.some htwins) .nil
  have hhand' : List.Forall₂ (Option.Rel (Currying.Twins S watch n f)) [some once] [some twice] :=
    .cons (.some htwins.symm) .nil
  refine ⟨⟨htwins.name_eq, htwins.arity_eq⟩, fun occasions => ⟨?_, ?_⟩, fun play play' h h' hmoves => ?_⟩
  · rintro ⟨play, hplay, rfl⟩
    exact Currying.Twins.exists_plays hf hhand hplay
  · rintro ⟨play, hplay, rfl⟩
    exact Currying.Twins.exists_plays hf hhand' hplay
  · exact Currying.Twins.forall₂_likewise hf hhand h h' hmoves

/-- Three calls of a function that is curried twice: the first leaves a hole in front of a list, the
second fills it with a value and has one to spare, the third calls the same partial application with
nothing, so that the hole becomes nil. All three can be made when it is curried once, and are alike. -/
theorem currying_again_is_unobservable_hole :
    let f : Func Empty := ⟨0, "push", 2, .pushStep⟩
    let watch : Func Empty → Bool := fun g => g.id == 0
    let between : Func Empty := ⟨1, "push", 2, .curried 2 f⟩
    let twice : Func Empty := ⟨2, "push", 2, .curried 2 between⟩
    let once : Func Empty := ⟨3, "push", 2, .curried 2 f⟩
    let p : Func Empty := ⟨4, "push", 1, .collecting 2 between [.placeholder, .list [.nil]]⟩
    let w : World Empty Unit := ⟨.empty, .empty, .empty, .empty, [], 4, ()⟩
    let filled : Except Error (Value Empty) := .ok (.list [.nil, .bool true])
    let missing : Except Error (Value Empty) := .ok (.list [.nil, .nil])
    let play : List (Played Empty Unit) :=
      [⟨⟨0, [.placeholder, .list [.nil]]⟩, w, ⟨[], .ok (.func p), w.minted 1⟩⟩,
        ⟨⟨1, [.bool true, .bool false]⟩, w.minted 1,
          ⟨[⟨f, [.bool true, .list [.nil]], filled⟩], filled, w.minted 1⟩⟩,
        ⟨⟨1, []⟩, w.minted 1, ⟨[⟨f, [.nil, .list [.nil]], missing⟩], missing, w.minted 1⟩⟩]
    Plays watch [some twice] play ∧
      ∃ play', Plays watch [some once] play' ∧
        play'.map Played.occasion = play.map Played.occasion ∧
          List.Forall₂ (Likewise f) play play' := by
  intro f watch between twice once p w filled missing play
  have hplay : Plays watch [some twice] play :=
    .move rfl ⟨0, rfl⟩ (.move rfl ⟨2, rfl⟩ (.move rfl ⟨2, rfl⟩ .stop))
  have hf : watch f = true := rfl
  have hbetween : watch ((curryN 2 f).run 1).1 = false := rfl
  obtain ⟨-, hoccasions, hlikewise⟩ :=
    currying_again_is_unobservable (S := Unit) (by decide) f 1 3 hf hbetween
  obtain ⟨play', hplay', hsame⟩ := (hoccasions _).mp ⟨play, hplay, rfl⟩
  have hmoves : play.map Played.move = play'.map Played.move := by
    have hfirst := congrArg (List.map Prod.fst) hsame
    rw [List.map_map, List.map_map] at hfirst
    exact hfirst.symm
  exact ⟨hplay, play', hplay', hsame, hlikewise play play' hplay hplay' hmoves⟩

end DynamicDispatch
