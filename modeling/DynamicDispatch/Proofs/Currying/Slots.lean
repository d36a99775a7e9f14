import DynamicDispatch.Proofs.Action.Simulation
import DynamicDispatch.Proofs.Action.Trace

/-!
# The slots of a curried function

A function that collects `n` arguments for `f` holds slots, some of which may be holes. A call fills
the holes and either calls `f` on exactly `n` arguments without a hole, or gives a function that
holds what there is. These lemmas say what a call does in terms of the slots alone: `filledAt` reads
an argument of `f` off the slots and the later values.
-/

namespace DynamicDispatch

variable {C S : Type}

namespace Currying

/-- The number of holes. -/
def holes (slots : List (Value C)) : Nat := slots.countP (·.isPlaceholder)

/-- The argument at a position when later values fill the holes: the slot there or, for a hole, the
first value that no earlier hole took; past the slots, the values that no hole took. -/
def filledAt (slots later : List (Value C)) (i : Nat) : Option (Value C) :=
  match slots[i]? with
  | some slot => if slot.isPlaceholder then later[holes (slots.take i)]? else some slot
  | none => later[holes slots + (i - slots.length)]?

/-- A value is the hole or is given. -/
theorem hole_or_given (v : Value C) : v = .placeholder ∨ v.isPlaceholder = false := by
  cases v <;> first | exact Or.inl rfl | exact Or.inr rfl

@[simp]
theorem holes_nil : holes ([] : List (Value C)) = 0 := rfl

@[simp]
theorem holes_cons_hole (slots : List (Value C)) :
    holes (.placeholder :: slots) = holes slots + 1 := by
  simp [holes, Value.isPlaceholder]

theorem holes_cons_given {slot : Value C} (h : slot.isPlaceholder = false)
    (slots : List (Value C)) : holes (slot :: slots) = holes slots := by
  simp [holes, h]

@[simp]
theorem given_nil : given ([] : List (Value C)) = 0 := rfl

@[simp]
theorem given_cons_hole (slots : List (Value C)) :
    given (.placeholder :: slots) = given slots := by
  simp [given, Value.isPlaceholder]

theorem given_cons_given {slot : Value C} (h : slot.isPlaceholder = false)
    (slots : List (Value C)) : given (slot :: slots) = given slots + 1 := by
  simp [given, h]

/-- Every slot is a hole or is given. -/
theorem given_add_holes (slots : List (Value C)) : given slots + holes slots = slots.length := by
  induction slots with
  | nil => rfl
  | cons slot slots ih =>
    rcases hole_or_given slot with rfl | h
    · rw [given_cons_hole, holes_cons_hole, List.length_cons]
      omega
    · rw [given_cons_given h, holes_cons_given h, List.length_cons]
      omega

/-- Values without a hole all count. -/
theorem given_eq_length {args : List (Value C)} (h : ∀ v ∈ args, v.isPlaceholder = false) :
    given args = args.length := by
  rw [given, List.countP_eq_length]
  intro v hv
  simp [h v hv]

/-- If as many values count as there are, there is no hole. -/
theorem not_hole_of_length_le_given {args : List (Value C)} (h : args.length ≤ given args) :
    ∀ v ∈ args, v.isPlaceholder = false := by
  have hall := List.countP_eq_length.mp (Nat.le_antisymm List.countP_le_length h)
  intro v hv
  simpa using hall v hv

@[simp]
theorem fill_nil (later : List (Value C)) : fill [] later = later := rfl

@[simp]
theorem fill_hole_nil (slots : List (Value C)) :
    fill (.placeholder :: slots) [] = .nil :: fill slots [] := rfl

@[simp]
theorem fill_hole_cons (slots later : List (Value C)) (v : Value C) :
    fill (.placeholder :: slots) (v :: later) = v :: fill slots later := rfl

/-- A given slot stays. -/
theorem fill_cons_given {slot : Value C} (h : slot.isPlaceholder = false)
    (slots later : List (Value C)) : fill (slot :: slots) later = slot :: fill slots later := by
  cases slot <;> first | rfl | simp [Value.isPlaceholder] at h

/-- Slots without a hole stay, and later values follow them. -/
theorem fill_of_given {slots : List (Value C)} (h : ∀ v ∈ slots, v.isPlaceholder = false)
    (later : List (Value C)) : fill slots later = slots ++ later := by
  induction slots with
  | nil => rfl
  | cons slot slots ih =>
    rw [fill_cons_given (h slot List.mem_cons_self), ih fun v hv => h v (List.mem_cons_of_mem _ hv)]
    rfl

/-- A value fills the first hole and leaves the rest to the other holes. -/
theorem filledAt_hole_cons_succ (slots later : List (Value C)) (v : Value C) (i : Nat) :
    filledAt (.placeholder :: slots) (v :: later) (i + 1) = filledAt slots later i := by
  have hshift : holes slots + 1 + (i - slots.length) = holes slots + (i - slots.length) + 1 := by
    omega
  simp only [filledAt, List.getElem?_cons_succ, List.take_succ_cons, holes_cons_hole,
    List.length_cons, Nat.add_sub_add_right, hshift]

/-- A given slot takes no value from the holes after it. -/
theorem filledAt_cons_given_succ {slot : Value C} (h : slot.isPlaceholder = false)
    (slots later : List (Value C)) (i : Nat) :
    filledAt (slot :: slots) later (i + 1) = filledAt slots later i := by
  simp only [filledAt, List.getElem?_cons_succ, List.take_succ_cons, holes_cons_given h,
    List.length_cons, Nat.add_sub_add_right]

/-- With a value for every hole, filling is read off position by position. -/
theorem getElem?_fill {slots later : List (Value C)} (h : holes slots ≤ later.length) (i : Nat) :
    (fill slots later)[i]? = filledAt slots later i := by
  induction slots generalizing later i with
  | nil => simp [filledAt]
  | cons slot slots ih =>
    rcases hole_or_given slot with rfl | hslot
    · cases later with
      | nil => simp at h
      | cons v later =>
        cases i with
        | zero => simp [filledAt, Value.isPlaceholder]
        | succ i =>
          rw [fill_hole_cons, List.getElem?_cons_succ, filledAt_hole_cons_succ]
          exact ih (by simpa using h) i
    · rw [fill_cons_given hslot]
      cases i with
      | zero => simp [filledAt, hslot]
      | succ i =>
        rw [List.getElem?_cons_succ, filledAt_cons_given_succ hslot]
        exact ih (by simpa [holes_cons_given hslot] using h) i

/-- With a value for every hole, nothing is lost: given slots and values stay. -/
theorem length_fill {slots later : List (Value C)} (h : holes slots ≤ later.length) :
    (fill slots later).length = given slots + later.length := by
  induction slots generalizing later with
  | nil => simp
  | cons slot slots ih =>
    rcases hole_or_given slot with rfl | hslot
    · cases later with
      | nil => simp at h
      | cons v later =>
        rw [fill_hole_cons, List.length_cons, ih (by simpa using h), given_cons_hole,
          List.length_cons, Nat.add_assoc]
    · rw [fill_cons_given hslot, List.length_cons,
        ih (by simpa [holes_cons_given hslot] using h), given_cons_given hslot]
      omega

/-- Values without a hole leave none. -/
theorem fill_given {slots later : List (Value C)} (h : ∀ v ∈ later, v.isPlaceholder = false) :
    ∀ v ∈ fill slots later, v.isPlaceholder = false := by
  induction slots generalizing later with
  | nil => exact h
  | cons slot slots ih =>
    rcases hole_or_given slot with rfl | hslot
    · cases later with
      | nil => exact List.forall_mem_cons.mpr ⟨rfl, ih h⟩
      | cons v later =>
        obtain ⟨hv, hlater⟩ := List.forall_mem_cons.mp h
        exact List.forall_mem_cons.mpr ⟨hv, ih hlater⟩
    · rw [fill_cons_given hslot]
      exact List.forall_mem_cons.mpr ⟨hslot, ih h⟩

/-- A function that collects `n` arguments for `f` and holds some slots, all of them open at first. -/
def Collects (n : Nat) (f : Func C) (slots : List (Value C)) (g : Func C) : Prop :=
  g.code = .collecting n f slots ∨ (g.code = .curried n f ∧ slots = [])

/-- A call of a collecting function fills its slots. -/
theorem Collects.body_eq [Embedding C S] {n : Nat} {f g : Func C} {slots : List (Value C)}
    (h : Collects n f slots g) (args : List (Value C)) :
    g.body (S := S) args = supply n f (fill slots args) := by
  rcases h with h | ⟨h, rfl⟩ <;> simp [Callable.body, h]

/-- With `n` arguments there, supplying them is calling `f` on them. -/
theorem supply_of_le_given {n : Nat} {f : Func C} {args : List (Value C)}
    (h : n ≤ given (args.take n)) : supply (S := S) n f args = call f (args.take n) := by
  simp only [supply, if_pos h]

/-- With fewer arguments there, supplying them gives a function that holds them, and asks for
nothing. -/
theorem trace_supply_of_given_lt {n : Nat} {f : Func C} {args : List (Value C)}
    (h : given (args.take n) < n) (answer : Answering C S) (w : World C S) :
    (supply n f args).trace answer w =
      some ⟨[], .ok (.func ⟨w.nextId, f.name, n - given (args.take n),
        .collecting n f (args.take n)⟩), w.minted 1⟩ := by
  simp only [supply, if_neg (Nat.not_le.mpr h)]
  rfl

/-- With fewer arguments there, nothing is seen of supplying them but a function that holds them. -/
theorem shows_supply_of_given_lt [Embedding C S] (watch : Func C → Bool) {n : Nat} {f : Func C}
    {args : List (Value C)} (h : given (args.take n) < n) (w : World C S) :
    (supply n f args).Shows watch w [] (.ok (.func ⟨w.nextId, f.name, n - given (args.take n),
      .collecting n f (args.take n)⟩)) (w.minted 1) := by
  refine ⟨0, ?_⟩
  simp only [supply, if_neg (Nat.not_le.mpr h)]
  rfl

/-- With fewer arguments there, supplying them yields a function that holds them. -/
theorem yields_supply_of_given_lt [Embedding C S] {n : Nat} {f : Func C} {args : List (Value C)}
    (h : given (args.take n) < n) (w : World C S) :
    (supply n f args).Yields w (.ok (.func ⟨w.nextId, f.name, n - given (args.take n),
      .collecting n f (args.take n)⟩)) (w.minted 1) :=
  (shows_supply_of_given_lt (fun _ => false) h w).yields

section

variable [Embedding C S] {n : Nat} {f g : Func C} {slots args : List (Value C)}

/-- Given enough, a collecting function calls `f` on the first `n` of its filled slots. -/
theorem Collects.body_of_le_given (h : Collects n f slots g)
    (henough : n ≤ given ((fill slots args).take n)) :
    g.body (S := S) args = call f ((fill slots args).take n) := by
  rw [h.body_eq, supply_of_le_given henough]

/-- Given too little, nothing is seen of a collecting function but one that holds what there is. -/
theorem Collects.shows_body_of_given_lt (watch : Func C → Bool) (h : Collects n f slots g)
    (hfew : given ((fill slots args).take n) < n) (w : World C S) :
    (g.body args).Shows watch w [] (.ok (.func ⟨w.nextId, f.name, n - given ((fill slots args).take n),
      .collecting n f ((fill slots args).take n)⟩)) (w.minted 1) := by
  rw [h.body_eq]
  exact shows_supply_of_given_lt watch hfew w

/-- Without a hole in its slots, a collecting function supplies them followed by the arguments. -/
theorem Collects.body_of_given (h : Collects n f slots g)
    (hgiven : ∀ v ∈ slots ++ args, v.isPlaceholder = false) :
    g.body (S := S) args = supply n f (slots ++ args) := by
  rw [h.body_eq, fill_of_given fun v hv => hgiven v (List.mem_append_left _ hv)]

/-- Given the last of its arguments, a collecting function calls `f` on all of them. -/
theorem Collects.body_of_complete (h : Collects n f slots g)
    (hgiven : ∀ v ∈ slots ++ args, v.isPlaceholder = false)
    (hlength : (slots ++ args).length = n) : g.body (S := S) args = call f (slots ++ args) := by
  have htake : (slots ++ args).take n = slots ++ args :=
    List.take_of_length_le (Nat.le_of_eq hlength)
  have hcount : n ≤ given ((slots ++ args).take n) := by
    rw [htake, given_eq_length hgiven]
    exact Nat.le_of_eq hlength.symm
  rw [h.body_of_given hgiven, supply_of_le_given hcount, htake]

/-- Given the last of its arguments, a collecting function that is not watched is seen to call `f` on all
of them. -/
theorem Collects.alike_call {watch : Func C → Bool} (h : Collects n f slots g)
    (hwatch : watch g = false) (hgiven : ∀ v ∈ slots ++ args, v.isPlaceholder = false)
    (hlength : (slots ++ args).length = n) :
    Action.Alike watch Eq (call g args : Action C S (Value C)) (call f (slots ++ args)) := by
  have halike := Action.alike_call (S := S) hwatch args
  rwa [h.body_of_complete hgiven hlength] at halike

/-- Given too few arguments, a collecting function yields one that holds them. -/
theorem Collects.yields_body (h : Collects n f slots g)
    (hgiven : ∀ v ∈ slots ++ args, v.isPlaceholder = false)
    (hlength : (slots ++ args).length < n) (w : World C S) :
    ∃ p, Collects n f (slots ++ args) p ∧
      (g.body args).Yields w (.ok (.func p)) (w.minted 1) := by
  have htake : (slots ++ args).take n = slots ++ args :=
    List.take_of_length_le (Nat.le_of_lt hlength)
  have hmissing : given ((slots ++ args).take n) < n := by
    rw [htake, given_eq_length hgiven]
    exact hlength
  rw [h.body_of_given hgiven]
  exact ⟨_, Or.inl (by rw [htake]), yields_supply_of_given_lt hmissing w⟩

end

end Currying

/-- From two parameters on, currying gives a new function of that arity under the name of the old one. -/
theorem run_curryN {n : Nat} (hn : 2 ≤ n) (f : Func C) (id : Nat) :
    (curryN n f).run id = (⟨id, f.name, n, .curried n f⟩, id + 1) := by
  simp only [curryN, if_neg (Nat.not_lt.mpr hn)]
  rfl

/-- From two arguments on, currying gives a function that collects them. -/
theorem curryN_collects {n : Nat} (hn : 2 ≤ n) (f : Func C) (id : Nat) :
    Currying.Collects n f [] ((curryN n f).run id).1 := by
  rw [run_curryN hn]
  exact Or.inr ⟨rfl, rfl⟩

/-- Curried to its own arity, a function stays itself or gets one that collects its arguments. -/
theorem curry_eq_or_collects (f : Func C) (id : Nat) :
    ((curry f).run id).1 = f ∨ Currying.Collects f.arity f [] ((curry f).run id).1 := by
  rcases Nat.lt_or_ge f.arity 2 with hsmall | hlarge
  · left
    simp only [curry, curryN, if_pos hsmall]
    rfl
  · exact Or.inr (curryN_collects hlarge f id)

end DynamicDispatch
