import DynamicDispatch.Proofs.Currying.Slots

/-!
# Feeding a curried function in chunks

The values for a curried function may arrive in any chunks, one call after the other. The calls
before the last only collect: they ask for nothing and each gives a function of the arity that is
left. The last one calls the function once, on the first values.
-/

namespace DynamicDispatch

variable {C S : Type}

/-- Calls a function with a first chunk, the function that this gives with the next one, and so on:
the traces of the calls. After a call that gives no function there is none to go on with. -/
def feed [Embedding C S] (answer : Answering C S) :
    Func C → List (List (Value C)) → World C S → Option (List (Trace C S (Value C)))
  | _, [], _ => some []
  | g, chunk :: chunks, w =>
    match (g.body chunk).trace answer w with
    | some t =>
      (match t.result with
        | .ok (.func p) => feed answer p chunks t.world
        | _ => some []).map (t :: ·)
    | none => none

/-- The last chunk leads to one call, whatever it gives. -/
theorem feed_last [Embedding C S] (answer : Answering C S) (g : Func C) (chunk : List (Value C))
    (w : World C S) : feed answer g [chunk] w = ((g.body chunk).trace answer w).map ([·]) := by
  simp only [feed]
  cases (g.body chunk).trace answer w with
  | none => rfl
  | some t =>
    simp only [Option.map_some]
    split <;> rfl

/-- A call that gives a function leaves the other chunks to it. -/
theorem feed_cons_of_func [Embedding C S] {answer : Answering C S} {g p : Func C}
    {chunk : List (Value C)} {w w' : World C S} {asked : List (Request C)}
    (h : (g.body chunk).trace answer w = some ⟨asked, .ok (.func p), w'⟩)
    (chunks : List (List (Value C))) :
    feed answer g (chunk :: chunks) w =
      (feed answer p chunks w').map (⟨asked, .ok (.func p), w'⟩ :: ·) := by
  rw [feed, h]

namespace Currying

/-- The traces of calls that only collect, each of which hands out one identity. -/
def collecting (partials : List (Func C)) (w : World C S) : List (Trace C S (Value C)) :=
  partials.mapIdx fun i p => ⟨[], .ok (.func p), w.minted (i + 1)⟩

/-- The first collecting call comes before the others. -/
theorem collecting_cons (p : Func C) (partials : List (Func C)) (w : World C S) :
    collecting (p :: partials) w =
      ⟨[], .ok (.func p), w.minted 1⟩ :: collecting partials (w.minted 1) := by
  simp only [collecting, List.mapIdx_cons, World.minted_minted, Nat.add_comm 1]

/-- A function that holds slots without a hole, fed with further chunks: the slots and the chunks
together are what counts. -/
theorem feed_collects [Embedding C S] {n : Nat} {f g : Func C} {slots : List (Value C)}
    (hg : Collects n f slots g) (chunks : List (List (Value C)))
    (hgiven : ∀ v ∈ slots ++ chunks.flatten, v.isPlaceholder = false)
    (henough : n ≤ (slots ++ chunks.flatten).length)
    (hbefore : (slots ++ chunks.dropLast.flatten).length < n) (answer : Answering C S)
    (w : World C S) :
    ∃ partials : List (Func C), partials.length + 1 = chunks.length ∧
      (∀ (i : Nat) (h : i < partials.length),
        partials[i].arity = n - (slots ++ (chunks.take (i + 1)).flatten).length) ∧
      feed answer g chunks w =
        (answer (.call f ((slots ++ chunks.flatten).take n)) (w.minted partials.length)).map
          fun x => collecting partials w ++
            [⟨[.call f ((slots ++ chunks.flatten).take n)], x.1, x.2⟩] := by
  induction chunks generalizing g slots w with
  | nil =>
    simp only [List.flatten_nil, List.append_nil, List.dropLast_nil] at henough hbefore
    omega
  | cons chunk chunks ih =>
    have hslots : ∀ v ∈ slots, v.isPlaceholder = false :=
      fun v hv => hgiven v (List.mem_append_left _ hv)
    have hbody : g.body chunk = supply (S := S) n f (slots ++ chunk) := by
      rw [hg.body_eq, fill_of_given hslots]
    rw [List.flatten_cons, ← List.append_assoc] at hgiven henough ⊢
    cases chunks with
    | nil =>
      -- The last call: the arguments are complete.
      rw [List.flatten_nil, List.append_nil] at hgiven henough ⊢
      have hcount : n ≤ given ((slots ++ chunk).take n) := by
        rw [given_eq_length fun v hv => hgiven v (List.mem_of_mem_take hv), List.length_take]
        omega
      refine ⟨[], rfl, fun i h => absurd h (Nat.not_lt_zero i), ?_⟩
      rw [feed_last, hbody, supply_of_le_given hcount, Action.trace_call, Option.map_map]
      rfl
    | cons next rest =>
      -- Not the last call: it collects, and the induction hypothesis holds for what it gives.
      rw [List.dropLast_cons_cons, List.flatten_cons, ← List.append_assoc] at hbefore
      have hfew : (slots ++ chunk).length < n := by
        rw [List.length_append] at hbefore
        omega
      have htake : (slots ++ chunk).take n = slots ++ chunk :=
        List.take_of_length_le (Nat.le_of_lt hfew)
      have hcount : given (slots ++ chunk) = (slots ++ chunk).length :=
        given_eq_length fun v hv => hgiven v (List.mem_append_left _ hv)
      have hmissing : given ((slots ++ chunk).take n) < n := by
        rw [htake, hcount]
        exact hfew
      have htrace := trace_supply_of_given_lt (f := f) hmissing answer w
      rw [htake, hcount, ← hbody] at htrace
      let p : Func C :=
        ⟨w.nextId, f.name, n - (slots ++ chunk).length, .collecting n f (slots ++ chunk)⟩
      obtain ⟨partials, hlength, harity, hfeed⟩ :=
        ih (g := p) (Or.inl rfl) hgiven henough hbefore (w.minted 1)
      refine ⟨p :: partials, congrArg (· + 1) hlength, ?_, ?_⟩
      · intro i h
        cases i with
        | zero => simp [p]
        | succ i =>
          have hflat : ((chunk :: next :: rest).take (i + 1 + 1)).flatten =
              chunk ++ ((next :: rest).take (i + 1)).flatten := rfl
          rw [List.getElem_cons_succ, harity i (Nat.lt_of_succ_lt_succ h), hflat, List.append_assoc]
      · rw [feed_cons_of_func htrace, hfeed, Option.map_map, collecting_cons, List.length_cons,
          World.minted_minted, Nat.add_comm 1]
        rfl

end Currying

/-- Chunks that are cut from values without a hole, the last of which completes the arguments, lead
to one call of the function, made by the last chunk on the first `n` values, and to its result. Every
chunk before gives a function of the arity that is left and asks for nothing. -/
theorem feed_curryN [Embedding C S] (n : Nat) (hn : 2 ≤ n) (f : Func C) (id : Nat)
    (values : List (Value C)) (hgiven : ∀ v ∈ values, v.isPlaceholder = false)
    (henough : n ≤ values.length) (chunks : List (List (Value C)))
    (hcut : chunks.flatten = values) (hbefore : chunks.dropLast.flatten.length < n)
    (answer : Answering C S) (w : World C S) :
    ∃ partials : List (Func C), partials.length + 1 = chunks.length ∧
      (∀ (i : Nat) (h : i < partials.length),
        partials[i].arity = n - (chunks.take (i + 1)).flatten.length) ∧
      feed answer ((curryN n f).run id).1 chunks w =
        (answer (.call f (values.take n)) (w.minted partials.length)).map fun x =>
          Currying.collecting partials w ++ [⟨[.call f (values.take n)], x.1, x.2⟩] := by
  subst hcut
  exact Currying.feed_collects (curryN_collects hn f id) chunks hgiven henough hbefore answer w

/-- Three chunks for three parameters: one value, none, and three of which the last is dropped. -/
theorem feed_curryN_three_chunks :
    let f : Func Empty := ⟨0, "push", 3, .pushStep⟩
    let chunks : List (List (Value Empty)) :=
      [[.bool true], [], [.list [.nil], .bool false, .text "dropped"]]
    let w : World Empty Unit := ⟨.empty, .empty, .empty, .empty, [], 2, ()⟩
    ∃ partials : List (Func Empty), partials.length + 1 = 3 ∧
      (∀ (i : Nat) (h : i < partials.length),
        partials[i].arity = 3 - (chunks.take (i + 1)).flatten.length) ∧
      feed (answer 5) ((curryN 3 f).run 1).1 chunks w =
        (answer 5 (.call f [.bool true, .list [.nil], .bool false]) (w.minted partials.length)).map
          fun x => Currying.collecting partials w ++
            [⟨[.call f [.bool true, .list [.nil], .bool false]], x.1, x.2⟩] := by
  intro f chunks w
  exact feed_curryN 3 (by decide) f 1
    [.bool true, .list [.nil], .bool false, .text "dropped"] (by simp [Value.isPlaceholder])
    (by decide) chunks rfl (by decide) (answer 5) w

end DynamicDispatch
