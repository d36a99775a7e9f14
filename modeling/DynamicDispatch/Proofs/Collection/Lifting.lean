import Mathlib.Data.List.Forall2
import Mathlib.Data.List.ProdSigma
import DynamicDispatch.Proofs.Collection.Pouring
import DynamicDispatch.Proofs.Task.Lifting
import DynamicDispatch.Proofs.Value.Container

/-!
# A function of two arguments applied inside two containers

Mapping a function that collects two arguments over the first container leaves functions that hold a
value each, and the second container's values are handed to them. Nothing is seen of the functions
between: of two lists one sees the function called on every pair, the first list's values outermost; of
two results or two `Maybe`s one sees it called once, if both hold a value, and not at all otherwise; and
two tasks give a task that runs them one after the other.
-/

namespace DynamicDispatch.Collection

variable {C S : Type}

open DynamicDispatch.Action DynamicDispatch.Currying

/-- The registry maps over the containers of a type and applies functions in them by the methods of a
family. -/
structure Applies (r : Registry C) (key : TypeKey) (family : Family) : Prop where
  map : r.Provides key family .map
  ap : r.Provides key family .ap

/-- Going through pairs in order is going through the second list for each member of the first one. -/
theorem mapM_product {m : Type → Type} [Monad m] [LawfulMonad m] {α β γ : Type} (k : α × β → m γ)
    (xs : List α) (ys : List β) :
    (xs ×ˢ ys).mapM k =
      do return (← xs.mapM fun x => ys.mapM fun y => k (x, y)).flatten := by
  induction xs with
  | nil => simp only [List.nil_product, List.mapM_nil, pure_bind, List.flatten_nil]
  | cons x xs ih =>
    simp only [List.product_cons, List.mapM_append, List.mapM_map, Function.comp_def, ih,
      List.mapM_cons, LawfulMonad.bind_assoc, pure_bind, List.flatten_cons]

/-- The methods of a family for containers that hold one value at most: those that hold one, how the
result of a function is held, and those that lack one. -/
structure HoldsOne (S : Type) (key : TypeKey) (family : Family) (present hold : Value C → Value C)
    (lacks : Value C → Prop) : Prop where
  typeKey_present : ∀ v, (present v).typeKey = key
  typeKey_lacks : ∀ v, lacks v → v.typeKey = key
  hold_func : ∀ f, hold (.func f) = present (.func f)
  map_present : ∀ f v, (family.implementation .map [.func f, present v] : Action C S (Value C)) =
    do return hold (← call f [v])
  map_lacks : ∀ f v, lacks v →
    (family.implementation .map [.func f, v] : Action C S (Value C)) = pure v
  ap_present : ∀ b f, (family.implementation .ap [b, present (.func f)] : Action C S (Value C)) =
    Generic.map f b
  ap_lacks : ∀ b v, lacks v → (family.implementation .ap [b, v] : Action C S (Value C)) = pure v

/-- What a `Result` accepts or refuses. -/
theorem holdsOne_result : HoldsOne (C := C) S (UnionType.result (C := C)).key .result Result.ok Result.ok
    fun v => ∃ e, v = Result.err e := by
  refine ⟨fun _ => rfl, ?_, fun _ => rfl, fun _ _ => rfl, ?_, fun _ _ => rfl, ?_⟩
  · rintro _ ⟨e, rfl⟩
    rfl
  · rintro _ _ ⟨e, rfl⟩
    rfl
  · rintro _ _ ⟨e, rfl⟩
    rfl

/-- What a `Maybe` holds or lacks. -/
theorem holdsOne_maybe : HoldsOne (C := C) S (UnionType.maybe (C := C)).key .maybe Maybe.some Maybe.of
    fun v => v = Maybe.none := by
  refine ⟨fun _ => rfl, ?_, fun _ => rfl, fun _ _ => rfl, ?_, fun _ _ => rfl, ?_⟩
  · rintro _ rfl
    rfl
  · rintro _ _ rfl
    rfl
  · rintro _ _ rfl
    rfl

/-- Calls a function on pairs of values, one after the other, until one call ends with an error. -/
def callEach (f : Func C) (pairs : List (Value C × Value C)) : Action C S (List (Value C)) :=
  pairs.mapM fun e => callBoth f e.1 e.2

/-- The function of a small program. -/
inductive Pairing where
  /-- Lists its two arguments, of which the first one must not be a text. -/
  | pair

namespace Pairing

/-- The function as a value. -/
def func : Func Pairing := ⟨0, "pair", 2, .host pair⟩

/-- The cause for which a text is refused. -/
def refusal (s : String) : Error := .invalidArgument "pair" s

instance : Embedding Pairing Unit where
  body _ args :=
    match argument args 0 with
    | .text s => .fail (refusal s)
    | _ => return .list args

/-- The functions that collect arguments for it are not watched. -/
theorem isHost_of_collects (g : Func Pairing) (slots : List (Value Pairing))
    (h : Collects 2 func slots g) : g.isHost (fun _ => true) = false := by
  rcases h with h | ⟨h, -⟩ <;> rw [Callable.isHost, h]

/-- The functions of the program change no registration. -/
theorem hostKeeps : HostKeeps Unit (Registry.Standard (C := Pairing)) := by
  intro c args
  change (Terms.registering _).Kept (match argument args 0 with
    | .text s => Action.fail (refusal s)
    | _ => pure (Value.list args) : Action Pairing Unit (Value Pairing))
  split
  · exact .fail _
  · exact .pure _

end Pairing

section

variable [Embedding C S] {watch : Func C → Bool} {w : World C S} {f g p : Func C} {x : Value C}
  (hpartials : ∀ g slots, Collects 2 f slots g → watch g = false)
  (hmethods : ∀ m ∈ [Method.map, .ap], ∀ g : Func C, g.implements m = true → watch g = false)

include hmethods

/-- Applying a function inside two containers maps a function that collects its arguments over the first
one. Where nothing is seen of this, one sees how what it gives is applied to the second one. -/
theorem shows_liftA2_iff (harity : f.arity = 2) {key : TypeKey} {family : Family}
    (happlies : Applies w.registry key family) (hkey : key ≠ .placeholder) {a b : Value C}
    (ha : a.typeKey = key) (hb : b.isPlaceholder = false) :
    ∃ g, Collects 2 f [] g ∧ ∀ (m : Value C) (n : Nat), m.typeKey = key →
      (family.implementation .map [.func g, a]).Shows watch (w.minted 1) [] (.ok m) (w.minted n) →
      ∀ calls r w', (liftA2 f a b).Shows watch w calls r w' ↔
        (family.implementation .ap [b, m]).Shows watch (w.minted n) calls r w' := by
  subst ha
  have hsubject : ∀ {v : Value C}, v.typeKey = a.typeKey → v.isPlaceholder = false := fun hv =>
    Value.isPlaceholder_of_typeKey_ne (hv ▸ hkey)
  let g : Func C := ⟨w.nextId, f.name, 2, .curried 2 f⟩
  have hcurry : (Action.minting (curry f) : Action C S (Func C)).Shows watch w [] (.ok g)
      (w.minted 1) := by
    rw [curry, harity]
    exact ⟨0, rfl⟩
  refine ⟨g, Or.inr ⟨rfl, rfl⟩, fun m n hm hmap calls r w' => ?_⟩
  have hmapped : (Generic.map g a).Shows watch (w.minted 1) [] (.ok m) (w.minted n) := by
    have hgiven : ∀ v ∈ [Value.func g, a], v.isPlaceholder = false :=
      List.forall_mem_cons.mpr ⟨rfl, List.forall_mem_singleton.mpr (hsubject rfl)⟩
    exact Shows.method (hmethods .map (by decide)) happlies.map rfl hgiven hmap
  have hap : (w.minted n).registry.Provides m.typeKey family .ap := hm ▸ happlies.ap
  have hgiven : ∀ v ∈ [b, m], v.isPlaceholder = false :=
    List.forall_mem_cons.mpr ⟨hb, List.forall_mem_singleton.mpr (hsubject hm)⟩
  rw [liftA2, hcurry.bind_iff, hmapped.bind_iff]
  exact Method.shows_call_iff_of_provides (hmethods .ap (by decide)) hap rfl hgiven calls r w'

include hpartials

omit hmethods in
/-- Given a first value, a function that collects two arguments hands on one that holds the value. -/
theorem shows_call_first (hg : Collects 2 f [] g) (x : Value C) (w : World C S) :
    ∃ p, Collects 2 f [x] p ∧ (call g [x]).Shows watch w [] (.ok (.func p)) (w.minted 1) :=
  ⟨_, Or.inl rfl, (alike_eq_iff.mp (hg.alike_call_first (hpartials g [] hg) x) _ _ _ _).mpr ⟨0, rfl⟩⟩

omit hmethods in
/-- Mapping a function that collects two arguments over values gives functions that hold one of them
each. -/
theorem shows_partials (hg : Collects 2 f [] g) (xs : List (Value C)) (w : World C S) :
    ∃ ps : List (Func C), List.Forall₂ (fun p x => Collects 2 f [x] p) ps xs ∧
      (xs.mapM fun x => call g [x]).Shows watch w [] (.ok (ps.map .func)) (w.minted xs.length) := by
  induction xs generalizing w with
  | nil => exact ⟨[], .nil, shows_pure _ _⟩
  | cons x xs ih =>
    obtain ⟨p, hp, hfirst⟩ := shows_call_first hpartials hg x w
    obtain ⟨ps, hps, hrest⟩ := ih (w.minted 1)
    rw [World.minted_minted, Nat.add_comm] at hrest
    refine ⟨p :: ps, .cons hp hps, ?_⟩
    rw [List.mapM_cons]
    exact hfirst.bind (hrest.bind (shows_pure _ _))

/-- Mapping a function that holds a first value over a list is seen as its function called on that value
and each element. -/
theorem agreeOn_applyToAll (hp : Collects 2 f [x] p) {ys : List (Value C)}
    (hkeeps : ∀ y ∈ ys,
      (callBoth f x y).Leaves watch (fun w : World C S => w.registry.Standard) fun _ => True) :
    AgreeOn watch (fun w => w.registry.Standard)
      (Methods.applyToAll (.list ys) (.func p) : Action C S (List (Value C)))
      (ys.mapM fun y => callBoth f x y) := by
  have hcalls : AgreeOn watch (fun w => w.registry.Standard)
      (ys.mapM fun y => call p [y] : Action C S (List (Value C))) (ys.mapM fun y => callBoth f x y) :=
    AgreeOn.mapM (List.forall₂_same.mpr fun _ _ => rfl)
      (fun y _ _ hy => hy ▸ AgreeOn.of_alike (hp.alike_call_second (hpartials p [x] hp) _)) hkeeps
  have hmap : AgreeOn watch (fun w : World C S => w.registry.Standard) (Generic.map p (.list ys))
      ((ys.mapM fun y => callBoth f x y) >>= fun zs => pure (.list zs)) := by
    intro w hw calls r w'
    have hgiven : ∀ v ∈ [Value.func p, .list ys], v.isPlaceholder = false :=
      List.forall_mem_cons.mpr ⟨rfl, List.forall_mem_singleton.mpr rfl⟩
    have hprovides : w.registry.Provides (lastArgument [.func p, .list ys]).typeKey .list .map :=
      hw _ _ _ rfl
    have hmethod := Method.shows_call_iff_of_provides (hmethods .map (by decide)) hprovides rfl hgiven
      calls r w'
    exact hmethod.trans (hcalls.before (fun zs => pure (Value.list zs)) w hw calls r w')
  intro w hw calls r w'
  refine (hmap.before _ w hw calls r w').trans ?_
  rw [LawfulMonad.bind_assoc]
  simp only [pure_bind, bind_pure]

omit hpartials hmethods in
/-- Where functions keep the standard registrations, so does calling one on two values. -/
theorem leaves_callBoth (hhost : HostKeeps S (Registry.Standard (C := C))) (f : Func C)
    (x y : Value C) : (callBoth f x y : Action C S (Value C)).Leaves watch
      (fun w => w.registry.Standard) fun _ => True := by
  rw [callBoth]
  split
  · exact hhost.leaves watch (Terms.tolerates_registering.passOn.supply 2 f fun _ _ => trivial)
  · exact leaves_call watch hhost f [x, y]

/-- Of two lists one sees the function called on every pair. -/
theorem shows_liftA2_list_iff (harity : f.arity = 2) (hw : w.registry.Standard)
    {xs ys : List (Value C)} (hkeeps : ∀ x ∈ xs, ∀ y ∈ ys,
      (callBoth f x y).Leaves watch (fun w : World C S => w.registry.Standard) fun _ => True)
    (calls : List (SeenCall C)) (r : Except Error (Value C)) (w' : World C S) :
    (liftA2 f (.list xs) (.list ys)).Shows watch w calls r w' ↔
      (callEach f (xs ×ˢ ys) >>= fun zs => pure (.list zs)).Shows watch (w.minted (1 + xs.length))
        calls r w' := by
  obtain ⟨g, hg, hlift⟩ := shows_liftA2_iff hmethods harity (a := .list xs) (b := .list ys)
    ⟨hw .list .list .map rfl, hw .list .list .ap rfl⟩ nofun rfl rfl
  obtain ⟨ps, hps, hmapped⟩ := shows_partials hpartials hg xs (w.minted 1)
  rw [World.minted_minted] at hmapped
  rw [hlift (.list (ps.map .func)) (1 + xs.length) rfl
    (hmapped.bind (shows_pure _ _))]
  have hfunctions : AgreeOn watch (fun w : World C S => w.registry.Standard)
      ((ps.map Value.func).mapM (Methods.applyToAll (.list ys)))
      (xs.mapM fun x => ys.mapM fun y => callBoth f x y) := by
    refine AgreeOn.mapM (R := fun c x => ∃ p, c = .func p ∧ Collects 2 f [x] p) ?_ ?_ fun x hx =>
      (Leaves.mapM (hkeeps x hx)).mono fun _ _ => trivial
    · rw [List.forall₂_map_left_iff]
      exact hps.imp fun p x hp => ⟨p, rfl, hp⟩
    · rintro x hx _ ⟨p, rfl, hp⟩
      exact agreeOn_applyToAll hpartials hmethods hp (hkeeps x hx)
  have hlists := hfunctions.before (fun zss => pure (.list zss.flatten)) (w.minted (1 + xs.length)) hw
    calls r w'
  rw [callEach, mapM_product]
  simp only [LawfulMonad.bind_assoc, pure_bind]
  exact hlists

section HoldsOne

variable (harity : f.arity = 2) {key : TypeKey} {family : Family} {present hold : Value C → Value C}
  {lacks : Value C → Prop} (hholds : HoldsOne S key family present hold lacks)
  (happlies : Applies w.registry key family) (hkey : key ≠ .placeholder) {x y a b : Value C}

include harity hholds happlies hkey

/-- Where the first container holds a value, the function that holds it too is mapped over the second. -/
theorem shows_liftA2_present_iff (hb : b.typeKey = key) :
    ∃ p, Collects 2 f [x] p ∧ ∀ calls r w', (liftA2 f (present x) b).Shows watch w calls r w' ↔
      (family.implementation .map [.func p, b]).Shows watch (w.minted 2) calls r w' := by
  have hgiven : b.isPlaceholder = false := Value.isPlaceholder_of_typeKey_ne (hb ▸ hkey)
  obtain ⟨g, hg, hlift⟩ := shows_liftA2_iff hmethods harity happlies hkey (hholds.typeKey_present x) hgiven
  obtain ⟨p, hp, hfirst⟩ := shows_call_first hpartials hg x (w.minted 1)
  have hmapped : (family.implementation .map [.func g, present x]).Shows watch (w.minted 1) []
      (.ok (present (.func p))) (w.minted 2) := by
    rw [hholds.map_present, ← hholds.hold_func]
    exact hfirst.bind (shows_pure _ _)
  refine ⟨p, hp, fun calls r w' => ?_⟩
  rw [hlift _ 2 (hholds.typeKey_present _) hmapped, hholds.ap_present]
  have hgivens : ∀ v ∈ [Value.func p, b], v.isPlaceholder = false :=
    List.forall_mem_cons.mpr ⟨rfl, List.forall_mem_singleton.mpr hgiven⟩
  have hprovides : (w.minted 2).registry.Provides (lastArgument [.func p, b]).typeKey family .map := by
    subst hb
    exact happlies.map
  exact Method.shows_call_iff_of_provides (hmethods .map (by decide)) hprovides rfl hgivens calls r w'

/-- Where both containers hold a value, one sees the function called on both values. -/
theorem shows_liftA2_both_iff (calls : List (SeenCall C)) (r : Except Error (Value C))
    (w' : World C S) :
    (liftA2 f (present x) (present y)).Shows watch w calls r w' ↔
      (callBoth f x y >>= fun v => pure (hold v)).Shows watch (w.minted 2) calls r w' := by
  obtain ⟨p, hp, hlift⟩ := shows_liftA2_present_iff (x := x) hpartials hmethods harity hholds happlies
    hkey (hholds.typeKey_present y)
  rw [hlift, hholds.map_present]
  have hsecond := (hp.alike_call_second (S := S) (hpartials p [x] hp) y).before fun v => pure (hold v)
  exact alike_eq_iff.mp hsecond _ _ _ _

/-- Where the second one lacks a value, it is what is given, and no call is seen. -/
theorem shows_liftA2_of_second_lacks (hb : lacks b) :
    (liftA2 f (present x) b).Shows watch w [] (.ok b) (w.minted 2) := by
  obtain ⟨p, -, hlift⟩ := shows_liftA2_present_iff (x := x) hpartials hmethods harity hholds happlies
    hkey (hholds.typeKey_lacks b hb)
  rw [hlift, hholds.map_lacks p b hb]
  exact shows_pure _ _

omit hpartials in
/-- Where the first one lacks a value, it is what is given, and no call is seen. -/
theorem shows_liftA2_of_first_lacks (ha : lacks a) (hb : b.isPlaceholder = false) :
    (liftA2 f a b).Shows watch w [] (.ok a) (w.minted 1) := by
  have htype := hholds.typeKey_lacks a ha
  obtain ⟨g, -, hlift⟩ := shows_liftA2_iff hmethods harity happlies hkey htype hb
  rw [hlift a 1 htype (hholds.map_lacks g a ha ▸ shows_pure _ _),
    hholds.ap_lacks b a ha]
  exact shows_pure _ _

end HoldsOne

/-- Two tasks give a task, not started, to which the function is lifted. -/
theorem shows_liftA2_task (harity : f.arity = 2) (hw : w.registry.Standard) (s t : Task C) :
    ∃ r : Recipe C, (liftA2 f (.task s) (.task t)).Shows watch w []
      (.ok (.task ⟨w.nextId + 2, r⟩)) (w.minted 3) ∧ r.Lifts S watch f s.recipe t.recipe := by
  obtain ⟨g, hg, hlift⟩ := shows_liftA2_iff hmethods harity (a := .task s) (b := .task t)
    ⟨hw .task .task .map rfl, hw .task .task .ap rfl⟩ nofun rfl rfl
  have hmapped : (Family.task.implementation .map [.func g, .task s]).Shows watch (w.minted 1) []
      (.ok (.task ⟨w.nextId + 1, s.recipe.tryMap g⟩)) (w.minted 2) := ⟨0, rfl⟩
  exact ⟨_, (hlift _ 2 rfl hmapped _ _ _).mpr ⟨0, rfl⟩,
    Recipe.lifts_ap_tryMap hpartials hg s.recipe t.recipe⟩

/-- A function of two arguments is applied inside two containers of a type. Of two lists one sees it
called on every pair in order, the first list's values outermost, up to the first error, and the results
are listed. Of two results one sees it called once if both are accepted, and otherwise the first one that
is refused is given; of two `Maybe`s one sees it called once if both are there, and otherwise none is
given. Two tasks give a task that runs the first one, then, if it succeeds, the second one, and then calls
the function, and that fails with the first failure or for the function's error. -/
theorem liftA2_applies (harity : f.arity = 2) (hw : w.registry.Standard) :
    (∀ x y : Value C, x.isPlaceholder = false → y.isPlaceholder = false →
      (callBoth f x y : Action C S (Value C)) = call f [x, y]) ∧
    (∀ xs ys : List (Value C), (∀ x ∈ xs, ∀ y ∈ ys,
        (callBoth f x y).Leaves watch (fun w : World C S => w.registry.Standard) fun _ => True) →
      ∀ calls r w', (liftA2 f (.list xs) (.list ys)).Shows watch w calls r w' ↔
        (callEach f (xs ×ˢ ys) >>= fun zs => pure (.list zs)).Shows watch (w.minted (1 + xs.length))
          calls r w') ∧
    ((∀ x y calls r w', (liftA2 f (Result.ok x) (Result.ok y)).Shows watch w calls r w' ↔
        (callBoth f x y >>= fun v => pure (Result.ok v)).Shows watch (w.minted 2) calls r w') ∧
      (∀ x e, (liftA2 f (Result.ok x) (Result.err e)).Shows watch w [] (.ok (Result.err e)) (w.minted 2)) ∧
      ∀ e m, (liftA2 f (Result.err e) (Result.ofExcept m)).Shows watch w [] (.ok (Result.err e))
        (w.minted 1)) ∧
    ((∀ x y calls r w', (liftA2 f (Maybe.some x) (Maybe.some y)).Shows watch w calls r w' ↔
        (callBoth f x y >>= fun v => pure (Maybe.of v)).Shows watch (w.minted 2) calls r w') ∧
      (∀ x, (liftA2 f (Maybe.some x) Maybe.none).Shows watch w [] (.ok Maybe.none) (w.minted 2)) ∧
      ∀ m, (liftA2 f Maybe.none (Maybe.ofOption m)).Shows watch w [] (.ok Maybe.none) (w.minted 1)) ∧
    ∀ s t : Task C, ∃ r : Recipe C, (liftA2 f (.task s) (.task t)).Shows watch w []
      (.ok (.task ⟨w.nextId + 2, r⟩)) (w.minted 3) ∧ r.Lifts S watch f s.recipe t.recipe := by
  have hresult : Applies w.registry (UnionType.result (C := C)).key .result :=
    ⟨hw _ _ _ rfl, hw _ _ _ rfl⟩
  have hmaybe : Applies w.registry (UnionType.maybe (C := C)).key .maybe :=
    ⟨hw _ _ _ rfl, hw _ _ _ rfl⟩
  refine ⟨fun x y => callBoth_of_given, fun xs ys => shows_liftA2_list_iff hpartials hmethods harity hw,
    ⟨fun x y => ?_, fun x e => ?_, fun e m => ?_⟩, ⟨fun x y => ?_, fun x => ?_, fun m => ?_⟩,
    shows_liftA2_task hpartials hmethods harity hw⟩
  · exact shows_liftA2_both_iff hpartials hmethods harity holdsOne_result hresult nofun
  · exact shows_liftA2_of_second_lacks hpartials hmethods harity holdsOne_result hresult nofun ⟨e, rfl⟩
  · exact shows_liftA2_of_first_lacks hmethods harity holdsOne_result hresult nofun ⟨e, rfl⟩
      (Value.isPlaceholder_of_typeKey_ne (Result.typeKey_ofExcept m ▸ nofun))
  · exact shows_liftA2_both_iff hpartials hmethods harity holdsOne_maybe hmaybe nofun
  · exact shows_liftA2_of_second_lacks hpartials hmethods harity holdsOne_maybe hmaybe nofun rfl
  · exact shows_liftA2_of_first_lacks hmethods harity holdsOne_maybe hmaybe nofun rfl
      (Value.isPlaceholder_of_typeKey_ne (Maybe.typeKey_of_contains (Maybe.contains_ofOption m) ▸ nofun))

end

/-- Lists of which a pair is refused, two results, two `Maybe`s and two tasks, at the start. -/
theorem liftA2_applies_pair :
    let w : World Pairing Unit := World.initial ()
    let watched : Func Pairing → Bool := Callable.isHost fun _ => true
    let pair : Func Pairing := Pairing.func
    let yes : Value Pairing := .bool true
    let no : Value Pairing := .bool false
    let seen (x y : Value Pairing) : SeenCall Pairing := ⟨pair, [x, y], .ok (.list [x, y])⟩
    (liftA2 pair (.list [yes, no]) (.list [.nil, yes])).Shows watched w
      [seen yes .nil, seen yes yes, seen no .nil, seen no yes]
      (.ok (.list [.list [yes, .nil], .list [yes, yes], .list [no, .nil], .list [no, yes]]))
      (w.minted 3) ∧
    (liftA2 pair (.list [yes, .text "no", no]) (.list [.nil])).Shows watched w
      [seen yes .nil, ⟨pair, [.text "no", .nil], .error (Pairing.refusal "no")⟩]
      (.error (Pairing.refusal "no")) (w.minted 4) ∧
    (liftA2 pair (Result.ok yes) (Result.ok no)).Shows watched w [seen yes no]
      (.ok (Result.ok (.list [yes, no]))) (w.minted 2) ∧
    (liftA2 pair (Result.ok yes) (Result.err no)).Shows watched w [] (.ok (Result.err no))
      (w.minted 2) ∧
    (liftA2 pair Maybe.none (Maybe.some no)).Shows watched w [] (.ok Maybe.none) (w.minted 1) ∧
    ∃ r : Recipe Pairing, (liftA2 pair (.task ⟨1, .succeed yes⟩) (.task ⟨2, .fail no⟩)).Shows
      watched w [] (.ok (.task ⟨w.nextId + 2, r⟩)) (w.minted 3) ∧
      r.Lifts Unit watched pair (.succeed yes) (.fail no) := by
  intro w watched pair yes no seen
  have hw : w.registry.Standard := Registry.standard_standard firstFreeId
  have hkeeps : ∀ x y, (callBoth pair x y).Leaves watched
      (fun w : World Pairing Unit => w.registry.Standard) fun _ => True :=
    leaves_callBoth Pairing.hostKeeps pair
  obtain ⟨-, hlists, ⟨haccepted, hrefused, -⟩, ⟨-, -, hnone⟩, htasks⟩ := liftA2_applies (f := pair)
    Pairing.isHost_of_collects (fun _ _ => Callable.isHost_of_implements _) rfl hw
  refine ⟨?_, ?_, ?_, hrefused yes no, hnone (some no), htasks ⟨1, .succeed yes⟩ ⟨2, .fail no⟩⟩
  · exact (hlists [yes, no] [.nil, yes] (fun x _ y _ => hkeeps x y) _ _ _).mpr ⟨2, rfl⟩
  · exact (hlists [yes, .text "no", no] [.nil] (fun x _ y _ => hkeeps x y) _ _ _).mpr ⟨2, rfl⟩
  · exact (haccepted yes no _ _ _).mpr ⟨2, rfl⟩

end DynamicDispatch.Collection
