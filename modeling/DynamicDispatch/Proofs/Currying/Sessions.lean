import DynamicDispatch.Proofs.Currying.Slots

/-!
# Sessions with a curried function

A session is any sequence of calls on a curried function and on the partial applications that its
calls gave, with any arguments: holes, too few or too many. Whatever the sequence, a call either calls
the function on exactly `n` arguments without a hole, or gives a partial application that asks for
between one and `n` more and completes as soon as it gets as many.
-/

namespace DynamicDispatch

variable {C S : Type}

/-- One call of a session, and what was observed of it. -/
structure Exchange (C S : Type) where
  callee : Func C
  args : List (Value C)
  seen : Trace C S (Value C)

/-- The partial application that a call gave: the function it ended with, having called nothing. -/
def Exchange.partial? (e : Exchange C S) : Option (Func C) :=
  match e.seen.asked, e.seen.result with
  | [], .ok (.func p) => some p
  | _, _ => none

/-- A sequence of calls, each on `g` or on a partial application that an earlier call gave. Between
two calls anything may happen to the world. -/
inductive Session [Embedding C S] (answer : Answering C S) (g : Func C) :
    List (Exchange C S) → Prop
  | start : Session answer g []
  | call {exchanges : List (Exchange C S)} {p : Func C} {args : List (Value C)} {w : World C S}
      {seen : Trace C S (Value C)} (earlier : Session answer g exchanges)
      (callee : p = g ∨ p ∈ exchanges.filterMap Exchange.partial?)
      (observed : (p.body args).trace answer w = some seen) :
      Session answer g (exchanges ++ [⟨p, args, seen⟩])

namespace Currying

/-- Arguments on which a function of `n` parameters can be called: as many, and no hole. -/
def Complete (n : Nat) (args : List (Value C)) : Prop :=
  args.length = n ∧ ∀ v ∈ args, v.isPlaceholder = false

/-- A partial application that holds some slots and reports how many values it still needs. -/
structure Waits (n : Nat) (f : Func C) (slots : List (Value C)) (p : Func C) : Prop where
  code_eq : p.code = .collecting n f slots
  arity_eq : p.arity = n - given slots
  length_le : slots.length ≤ n
  given_lt : given slots < n

/-- At least one value is missing, and never more than `n`. -/
theorem Waits.arity_bounds {n : Nat} {f p : Func C} {slots : List (Value C)}
    (h : Waits n f slots p) : 1 ≤ p.arity ∧ p.arity ≤ n := by
  have hgiven := h.given_lt
  rw [h.arity_eq]
  omega

/-- If the first `n` values count as `n`, they are complete. -/
theorem complete_take {n : Nat} {args : List (Value C)} (h : n ≤ given (args.take n)) :
    Complete n (args.take n) := by
  have hle : given (args.take n) ≤ (args.take n).length := List.countP_le_length
  have hlength : (args.take n).length ≤ n := List.length_take_le n args
  exact ⟨by omega, not_hole_of_length_le_given (by omega)⟩

/-- What a call in a session may be observed to do: it calls `f` on complete arguments and asks for
nothing else, or it asks for nothing and gives a partial application. -/
def CallsOrCollects (n : Nat) (f : Func C) (seen : Trace C S (Value C)) : Prop :=
  (∃ final, Complete n final ∧ seen.asked = [.call f final]) ∨
    ∃ p slots, Waits n f slots p ∧ seen.asked = [] ∧ seen.result = .ok (.func p)

/-- What a collecting function is called with either completes its slots or is collected. -/
theorem Collects.callsOrCollects [Embedding C S] {n : Nat} {f g : Func C}
    {slots args : List (Value C)} (hg : Collects n f slots g) {answer : Answering C S}
    {w : World C S} {seen : Trace C S (Value C)} (h : (g.body args).trace answer w = some seen) :
    CallsOrCollects n f seen := by
  rw [hg.body_eq] at h
  rcases Nat.lt_or_ge (given ((fill slots args).take n)) n with hfew | henough
  · right
    rw [trace_supply_of_given_lt hfew, Option.some.injEq] at h
    subst h
    exact ⟨_, _, ⟨rfl, rfl, List.length_take_le n _, hfew⟩, rfl, rfl⟩
  · left
    rw [supply_of_le_given henough, Action.trace_call] at h
    obtain ⟨x, -, rfl⟩ := Option.map_eq_some_iff.mp h
    exact ⟨_, complete_take henough, rfl⟩

/-- The partial application that a call gave waits for values. -/
theorem CallsOrCollects.waits {n : Nat} {f p : Func C} {e : Exchange C S}
    (h : CallsOrCollects n f e.seen) (hp : e.partial? = some p) : ∃ slots, Waits n f slots p := by
  rcases h with ⟨final, -, hasked⟩ | ⟨q, slots, hwaits, hasked, hresult⟩
  · simp [Exchange.partial?, hasked] at hp
  · simp only [Exchange.partial?, hasked, hresult, Option.some.injEq] at hp
    exact ⟨slots, hp ▸ hwaits⟩

/-- Every call of a session calls `f` on complete arguments or collects. -/
theorem Session.callsOrCollects [Embedding C S] {n : Nat} {f g : Func C} (hg : Collects n f [] g)
    {answer : Answering C S} {exchanges : List (Exchange C S)} (h : Session answer g exchanges) :
    ∀ e ∈ exchanges, CallsOrCollects n f e.seen := by
  induction h with
  | start => simp
  | @call exchanges p args w seen _ callee observed ih =>
    intro e he
    rcases List.mem_append.mp he with he | he
    · exact ih e he
    · obtain rfl := List.mem_singleton.mp he
      -- The callee collects for `f`, being the function of the session or given by a call of it.
      rcases callee with rfl | hp
      · exact hg.callsOrCollects observed
      · obtain ⟨e, he, hpartial⟩ := List.mem_filterMap.mp hp
        obtain ⟨slots, hwaits⟩ := (ih e he).waits hpartial
        have hcollects : Collects n f slots p := Or.inl hwaits.code_eq
        exact hcollects.callsOrCollects observed

/-- Every partial application that a session gave waits for values. -/
theorem Session.partial_waits [Embedding C S] {n : Nat} {f g : Func C}
    (hg : Collects n f [] g) {answer : Answering C S} {exchanges : List (Exchange C S)}
    (h : Session answer g exchanges) {p : Func C}
    (hp : p ∈ exchanges.filterMap Exchange.partial?) : ∃ slots, Waits n f slots p := by
  obtain ⟨e, he, hpartial⟩ := List.mem_filterMap.mp hp
  exact (Session.callsOrCollects hg h e he).waits hpartial

/-- Given as many values as it reports to need, a partial application calls `f`: on its slots with the
holes filled from the left, then on the values left over, cut to `n`. -/
theorem Waits.body_of_enough [Embedding C S] {n : Nat} {f p : Func C} {slots : List (Value C)}
    (h : Waits n f slots p) {args : List (Value C)} (hgiven : ∀ v ∈ args, v.isPlaceholder = false)
    (henough : p.arity ≤ args.length) :
    ∃ final, p.body (S := S) args = call f final ∧ final.length = n ∧
      ∀ i < n, final[i]? = filledAt slots args i := by
  have hlength := h.length_le
  have hlt := h.given_lt
  have hslots := given_add_holes slots
  rw [h.arity_eq] at henough
  have hholes : holes slots ≤ args.length := by omega
  have hfill := length_fill hholes
  have hfinal : ((fill slots args).take n).length = n := by
    rw [List.length_take]
    omega
  have hcount : n ≤ given ((fill slots args).take n) := by
    rw [given_eq_length fun v hv => fill_given hgiven v (List.mem_of_mem_take hv)]
    exact Nat.le_of_eq hfinal.symm
  have hcollects : Collects n f slots p := Or.inl h.code_eq
  refine ⟨(fill slots args).take n, ?_, hfinal, fun i hi => ?_⟩
  · exact hcollects.body_of_le_given hcount
  · rw [List.getElem?_take_of_lt hi, getElem?_fill hholes]

end Currying

/-- In every session with a function curried to `n` parameters: `f` is only called on `n` arguments
without a hole; every partial application reports between one and `n` missing values; and one that is
given as many values as it reports, or more, always calls `f`, on its slots with the holes filled from
the left by these values and followed by those left over, cut to `n`. -/
theorem session_curryN [Embedding C S] (n : Nat) (hn : 2 ≤ n) (f : Func C) (id : Nat)
    (answer : Answering C S) (exchanges : List (Exchange C S))
    (h : Session answer ((curryN n f).run id).1 exchanges) :
    (∀ e ∈ exchanges, ∀ q ∈ e.seen.asked, ∃ final, q = .call f final ∧ final.length = n ∧
      ∀ v ∈ final, v.isPlaceholder = false) ∧
    (∀ p ∈ exchanges.filterMap Exchange.partial?, 1 ≤ p.arity ∧ p.arity ≤ n) ∧
    (∀ p ∈ exchanges.filterMap Exchange.partial?, ∃ slots, p.code = .collecting n f slots ∧
      ∀ args : List (Value C), (∀ v ∈ args, v.isPlaceholder = false) → p.arity ≤ args.length →
        ∃ final, p.body (S := S) args = call f final ∧ final.length = n ∧
          ∀ i < n, final[i]? = Currying.filledAt slots args i) := by
  have hg := curryN_collects hn f id
  refine ⟨fun e he q hq => ?_, fun p hp => ?_, fun p hp => ?_⟩
  · rcases Currying.Session.callsOrCollects hg h e he with
      ⟨final, ⟨hlength, hgiven⟩, hasked⟩ | ⟨p, slots, -, hasked, -⟩
    · rw [hasked, List.mem_singleton] at hq
      exact ⟨final, hq, hlength, hgiven⟩
    · rw [hasked] at hq
      exact absurd hq List.not_mem_nil
  · obtain ⟨slots, hwaits⟩ := Currying.Session.partial_waits hg h hp
    exact hwaits.arity_bounds
  · obtain ⟨slots, hwaits⟩ := Currying.Session.partial_waits hg h hp
    exact ⟨slots, hwaits.code_eq, fun args hgiven henough => hwaits.body_of_enough hgiven henough⟩

/-- A session of two calls: the first leaves a hole in front of a list, the second fills it with a
value and has one to spare. -/
theorem session_curryN_hole :
    let f : Func Empty := ⟨0, "push", 2, .pushStep⟩
    let g : Func Empty := ⟨1, "push", 2, .curried 2 f⟩
    let p : Func Empty := ⟨2, "push", 1, .collecting 2 f [.placeholder, .list [.nil]]⟩
    let w : World Empty Unit := ⟨.empty, .empty, .empty, .empty, [], 2, ()⟩
    let exchanges : List (Exchange Empty Unit) :=
      [⟨g, [.placeholder, .list [.nil]], ⟨[], .ok (.func p), w.minted 1⟩⟩,
        ⟨p, [.bool true, .bool false], ⟨[.call f [.bool true, .list [.nil]]],
          .ok (.list [.nil, .bool true]), w.minted 1⟩⟩]
    Session (answer 2) g exchanges ∧
      ∃ slots, p.code = .collecting 2 f slots ∧
        ∀ args : List (Value Empty), (∀ v ∈ args, v.isPlaceholder = false) → 1 ≤ args.length →
          ∃ final, p.body (S := Unit) args = call f final ∧ final.length = 2 ∧
            ∀ i < 2, final[i]? = Currying.filledAt slots args i := by
  intro f g p w exchanges
  have hfirst : Session (answer 2) g (exchanges.take 1) :=
    .call (w := w) .start (Or.inl rfl) rfl
  have hsession : Session (answer 2) g exchanges :=
    .call (w := w.minted 1) hfirst (Or.inr (List.mem_singleton.mpr rfl)) rfl
  exact ⟨hsession, (session_curryN 2 (by decide) f 1 (answer 2) exchanges hsession).2.2 p
    (List.mem_singleton.mpr rfl)⟩

end DynamicDispatch
