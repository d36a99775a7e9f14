import DynamicDispatch.Proofs.Dispatch
import DynamicDispatch.Proofs.Registry.Lookup
import DynamicDispatch.Proofs.Value.Container
import DynamicDispatch.Proofs.Value.Elements

/-!
# Searching collections

The quantifiers go through a collection by a fold, which visits every value and cannot stop. Their steps
call the function only while nothing has been decided, so that what one sees of them is a search: the
function is tried on the values in order, until a result decides or a call ends with an error, and on
nothing after that. The two quantifiers are one search with the two truth values exchanged.
-/

namespace DynamicDispatch

variable {C S : Type}

/-- Folding a value of some family visits these values in order: the elements of a list, the characters
of a text, the values of a map by ascending keys, and the value of a `Maybe` or a `Result` that holds an
accepted one. -/
inductive Value.Visits : Value C → Family → List (Value C) → Prop
  | list (items : List (Value C)) : Visits (.list items) .list items
  | text (s : String) : Visits (.text s) .text (s.toList.map Methods.charValue)
  | map (entries : List (String × Value C)) : Visits (.map entries) .map (entries.map (·.2))
  | maybe (m : Option (Value C)) : Visits (Maybe.ofOption m) .maybe m.toList
  | result (r : Except (Value C) (Value C)) : Visits (Result.ofExcept r) .result r.toOption.toList

/-- What is folded is no hole. -/
theorem Value.Visits.isPlaceholder_eq {xs : Value C} {family : Family} {vs : List (Value C)}
    (h : xs.Visits family vs) : xs.isPlaceholder = false := by
  cases h with
  | maybe m => cases m <;> rfl
  | result r => cases r <;> rfl
  | _ => rfl

/-- The steps of the folds that search with a function. -/
def Callable.SearchesWith (step f : Func C) : Prop :=
  step.code = .anyStep f ∨ step.code = .everyStep f

namespace Collection

open DynamicDispatch.Action

/-- The family's fold calls the function on the visited values and the result so far. -/
theorem implementation_foldl_eq {xs : Value C} {family : Family} {vs : List (Value C)}
    (h : xs.Visits family vs) (f : Func C) (init : Value C) :
    (family.implementation .foldl [.func f, init, xs] : Action C S (Value C)) =
      vs.foldlM (fun acc v => call f [v, acc]) init := by
  cases h with
  | maybe m =>
    cases m with
    | none => rfl
    | some v => exact (bind_pure (call f [v, init])).symm
  | result r =>
    cases r with
    | error e => rfl
    | ok v => exact (bind_pure (call f [v, init])).symm
  | _ => rfl

/-- Calls a function on values in order until a result holds, or until one does not, as `b` says: gives
`b` then, and the opposite when no value is left. -/
def search (f : Func C) (b : Bool) : List (Value C) → Action C S Bool
  | [] => return !b
  | v :: vs => do
    if (← call f [v]).truthy == b then return b
    else search f b vs

/-- What a search comes to, given the results of the calls that it made and the values that it left
alone. Results that decide nothing come first; the last one decides or is an error, and only then may
values be left. -/
inductive Concludes (b : Bool) :
    (results : List (Except Error (Value C))) → (left : List (Value C)) → Except Error Bool → Prop
  | next {u : Value C} {results : List (Except Error (Value C))} {left : List (Value C)}
    {r : Except Error Bool} (hu : u.truthy = !b) (h : Concludes b results left r) :
    Concludes b (.ok u :: results) left r
  | decided {v : Value C} {left : List (Value C)} (hv : v.truthy = b) :
    Concludes b [.ok v] left (.ok b)
  | failed {e : Error} {left : List (Value C)} : Concludes b [.error e] left (.error e)
  | exhausted : Concludes b [] [] (.ok !b)

/-- Calls a function on each of some values, whatever comes of the calls. -/
def trials (f : Func C) (vs : List (Value C)) : Action C S (List (Except Error (Value C))) :=
  vs.mapM fun v => (call f [v]).attempt

variable [Embedding C S] {watch : Func C → Bool} {w w' : World C S} {calls : List (SeenCall C)}

/-- Trying a function on some values shows a call on the first one and then trying it on the others. -/
theorem shows_trials_cons_iff {f : Func C} {v : Value C} {vs : List (Value C)}
    {results : List (Except Error (Value C))} :
    (trials f (v :: vs)).Shows watch w calls (.ok results) w' ↔
      ∃ calls₁ r w₁ calls₂ rest, (call f [v]).Shows watch w calls₁ r w₁ ∧
        (trials f vs).Shows watch w₁ calls₂ (.ok rest) w' ∧ calls = calls₁ ++ calls₂ ∧
        results = r :: rest := by
  rw [trials, List.mapM_cons, shows_bind_iff]
  constructor
  · rintro (⟨calls₁, r, w₁, calls₂, hfirst, hrest, rfl⟩ | ⟨e, -, he⟩)
    · obtain ⟨r', hr, hcall⟩ := shows_attempt_iff.mp hfirst
      obtain rfl := Except.ok.inj hr
      obtain ⟨r', hrest, hr'⟩ := shows_bind_pure_iff.mp hrest
      cases r' with
      | error e => cases hr'
      | ok rest => exact ⟨calls₁, r, w₁, calls₂, rest, hcall, hrest, rfl, Except.ok.inj hr'⟩
    · cases he
  · rintro ⟨calls₁, r, w₁, calls₂, rest, hcall, hrest, rfl, rfl⟩
    refine Or.inl ⟨calls₁, r, w₁, calls₂, shows_attempt_iff.mpr ⟨r, rfl, hcall⟩, ?_, rfl⟩
    exact shows_bind_pure_iff.mpr ⟨.ok rest, hrest, rfl⟩

/-- No results are shown where nothing is tried. -/
theorem shows_trials_nil_iff {f : Func C} {vs : List (Value C)} :
    (trials f vs).Shows watch w calls (.ok []) w' ↔ vs = [] ∧ calls = [] ∧ w' = w := by
  constructor
  · intro h
    cases vs with
    | nil =>
      obtain ⟨rfl, -, rfl⟩ := shows_pure_iff.mp h
      exact ⟨rfl, rfl, rfl⟩
    | cons v vs =>
      obtain ⟨_, _, _, _, _, -, -, -, hnil⟩ := shows_trials_cons_iff.mp h
      cases hnil
  · rintro ⟨rfl, rfl, rfl⟩
    exact shows_pure _ _

/-- Who watches the function sees one call for each value, in order. -/
theorem calls_eq_of_shows_trials {f : Func C} (hf : watch f = true) {vs : List (Value C)}
    {results : List (Except Error (Value C))}
    (h : (trials f vs).Shows watch w calls (.ok results) w') :
    calls = List.zipWith (fun v r => ⟨f, [v], r⟩) vs results := by
  induction vs generalizing w calls results with
  | nil =>
    obtain ⟨rfl, -, -⟩ := shows_pure_iff.mp h
    rfl
  | cons v vs ih =>
    obtain ⟨calls₁, r, w₁, calls₂, rest, hcall, hrest, rfl, rfl⟩ := shows_trials_cons_iff.mp h
    rw [ih hrest, hcall.calls_eq_of_watched hf, List.zipWith_cons_cons, List.singleton_append]

/-- What one has seen from a world on is a search: a function was tried on the first of some values, one
after the other, and the result is concluded from what came of it. Who watches the function has seen
these calls alone. -/
def Searched (watch : Func C → Bool) (w : World C S) (f : Func C) (b : Bool) (vs : List (Value C))
    (calls : List (SeenCall C)) (r : Except Error Bool) (w' : World C S) : Prop :=
  ∃ tried left results, vs = tried ++ left ∧
    (trials f tried).Shows watch w calls (.ok results) w' ∧ Concludes b results left r ∧
    (watch f = true → calls = List.zipWith (fun v r => ⟨f, [v], r⟩) tried results)

/-- Trials of which the result is concluded are a search. -/
theorem Searched.of_trials {f : Func C} {b : Bool} (tried : List (Value C)) {left : List (Value C)}
    {results : List (Except Error (Value C))} {r : Except Error Bool}
    (htrials : (trials f tried).Shows watch w calls (.ok results) w')
    (hconcludes : Concludes b results left r) : Searched watch w f b (tried ++ left) calls r w' :=
  ⟨tried, left, results, rfl, htrials, hconcludes, fun hf => calls_eq_of_shows_trials hf htrials⟩

/-- This is what one sees of a search, and nothing else. -/
theorem shows_search_iff (f : Func C) (b : Bool) (vs : List (Value C)) (calls : List (SeenCall C))
    (r : Except Error Bool) (w' : World C S) :
    (search f b vs).Shows watch w calls r w' ↔ Searched watch w f b vs calls r w' := by
  induction vs generalizing w calls with
  | nil =>
    refine shows_pure_iff.trans ⟨?_, ?_⟩
    · rintro ⟨rfl, rfl, rfl⟩
      exact Searched.of_trials [] (shows_trials_nil_iff.mpr ⟨rfl, rfl, rfl⟩) .exhausted
    · rintro ⟨tried, left, results, hsplit, htrials, hconcludes, -⟩
      obtain ⟨rfl, rfl⟩ := List.append_eq_nil_iff.mp hsplit.symm
      obtain ⟨rfl, hresults, rfl⟩ := shows_pure_iff.mp htrials
      obtain rfl := Except.ok.inj hresults
      cases hconcludes
      exact ⟨rfl, rfl, rfl⟩
  | cons v vs ih =>
    rw [search, shows_bind_iff]
    constructor
    · rintro (⟨calls₁, u, w₁, calls₂, hcall, hrest, rfl⟩ | ⟨e, hcall, rfl⟩)
      · by_cases hu : u.truthy = b
        · rw [if_pos (beq_iff_eq.mpr hu)] at hrest
          obtain ⟨rfl, rfl, rfl⟩ := shows_pure_iff.mp hrest
          exact Searched.of_trials [v] (shows_trials_cons_iff.mpr ⟨calls₁, _, w', [], [],
            hcall, shows_trials_nil_iff.mpr ⟨rfl, rfl, rfl⟩, rfl, rfl⟩) (.decided hu)
        · rw [if_neg (mt beq_iff_eq.mp hu)] at hrest
          obtain ⟨tried, left, results, rfl, htrials, hconcludes, -⟩ := (ih calls₂).mp hrest
          exact Searched.of_trials (v :: tried) (shows_trials_cons_iff.mpr ⟨calls₁, _, w₁,
            calls₂, results, hcall, htrials, rfl, rfl⟩) (.next (Bool.eq_not_iff.mpr hu) hconcludes)
      · exact Searched.of_trials [v] (shows_trials_cons_iff.mpr ⟨calls, _, w', [], [],
          hcall, shows_trials_nil_iff.mpr ⟨rfl, rfl, rfl⟩, (List.append_nil calls).symm, rfl⟩) .failed
    · rintro ⟨tried, left, results, hsplit, htrials, hconcludes, -⟩
      cases tried with
      | nil =>
        obtain ⟨-, hresults, -⟩ := shows_pure_iff.mp htrials
        obtain rfl := Except.ok.inj hresults
        cases hconcludes
        cases hsplit
      | cons v' tried =>
        obtain ⟨rfl, rfl⟩ := List.cons.inj hsplit
        obtain ⟨calls₁, first, w₁, calls₂, rest, hcall, hrest, rfl, rfl⟩ :=
          shows_trials_cons_iff.mp htrials
        cases hconcludes with
        | @next u _ _ _ hu h =>
          refine Or.inl ⟨calls₁, u, w₁, calls₂, hcall, ?_, rfl⟩
          rw [if_neg (mt beq_iff_eq.mp (Bool.eq_not_iff.mp hu))]
          exact (ih calls₂).mpr (Searched.of_trials tried hrest h)
        | @decided u _ hu =>
          obtain ⟨rfl, rfl, rfl⟩ := shows_trials_nil_iff.mp hrest
          refine Or.inl ⟨calls₁, u, w', [], hcall, ?_, rfl⟩
          rw [if_pos (beq_iff_eq.mpr hu)]
          exact shows_pure _ _
        | @failed e _ =>
          obtain ⟨rfl, rfl, rfl⟩ := shows_trials_nil_iff.mp hrest
          rw [List.append_nil]
          exact Or.inr ⟨e, hcall, rfl⟩

/-- A function that holds where another one does not, and of which one sees the same calls. -/
def Negates (watch : Func C → Bool) (g f : Func C) : Prop :=
  ∀ v, Action.Alike watch (fun a b => a.truthy = !b.truthy) (call g [v] : Action C S (Value C))
    (call f [v])

/-- Searching for a value on which a function does not hold is searching for one on which its negation
holds. -/
theorem alike_search_not {f g : Func C} (h : Negates (S := S) watch g f) (b : Bool)
    (vs : List (Value C)) :
    Action.Alike watch Eq (search g b vs : Action C S Bool) (do return !(← search f (!b) vs)) := by
  induction vs with
  | nil => exact Action.Alike.pure (Bool.not_not (!b)).symm
  | cons v vs ih =>
    rw [search, search, LawfulMonad.bind_assoc]
    refine (h v).bind fun a u hau => ?_
    rw [hau]
    by_cases hu : u.truthy = !b
    · rw [if_pos (by rw [hu, Bool.not_not, beq_self_eq_true]), if_pos (beq_iff_eq.mpr hu), pure_bind,
        Bool.not_not]
      exact Action.Alike.refl _
    · rw [if_neg (by simpa using hu), if_neg (mt beq_iff_eq.mp hu)]
      exact ih

/-- A step of a fold that calls a function while nothing is decided. -/
def SearchStep (S : Type) [Embedding C S] (step f : Func C) (b : Bool) : Prop :=
  ∀ v c, (step.body [v, .bool c] : Action C S (Value C)) =
    if c == b then return .bool b else return .bool (← call f [v]).truthy

/-- The step of `any` decides when the function holds. -/
theorem searchStep_any (f : Func C) (id : Nat) : SearchStep S ⟨id, "any", 2, .anyStep f⟩ f true := by
  intro v c
  cases c <;> rfl

/-- The step of `every` decides when the function does not hold. -/
theorem searchStep_every (f : Func C) (id : Nat) :
    SearchStep S ⟨id, "every", 2, .everyStep f⟩ f false := by
  intro v c
  cases c <;> rfl

/-- Once something is decided, going on with the fold does nothing. -/
theorem alike_foldlM_decided {step f : Func C} {b : Bool} (hstep : SearchStep S step f b)
    (hwatch : watch step = false) (vs : List (Value C)) :
    Action.Alike watch Eq (vs.foldlM (fun acc v => call step [v, acc]) (.bool b) : Action C S (Value C))
      (pure (.bool b)) := by
  induction vs with
  | nil => exact Action.Alike.refl _
  | cons v vs ih =>
    have hcall : Action.Alike watch Eq (call step [v, .bool b] : Action C S (Value C))
        (pure (.bool b)) := by
      refine (alike_call hwatch _).trans ?_
      rw [hstep, if_pos (beq_self_eq_true b)]
      exact Action.Alike.refl _
    rw [List.foldlM_cons]
    refine (hcall.before _).trans ?_
    rw [pure_bind]
    exact ih

/-- The fold that searches is seen to do what the search does. -/
theorem alike_foldlM_search {step f : Func C} {b : Bool} (hstep : SearchStep S step f b)
    (hwatch : watch step = false) (vs : List (Value C)) :
    Action.Alike watch Eq (vs.foldlM (fun acc v => call step [v, acc]) (.bool !b) : Action C S (Value C))
      (do return .bool (← search f b vs)) := by
  induction vs with
  | nil => exact Action.Alike.refl _
  | cons v vs ih =>
    have hcall : Action.Alike watch Eq (call step [v, .bool !b] : Action C S (Value C))
        (do return .bool (← call f [v]).truthy) := by
      refine (alike_call hwatch _).trans ?_
      rw [hstep, if_neg (by simp)]
      exact Action.Alike.refl _
    rw [List.foldlM_cons, search, LawfulMonad.bind_assoc]
    refine (hcall.before _).trans ?_
    rw [LawfulMonad.bind_assoc]
    refine Action.Alike.after _ fun u => ?_
    rw [pure_bind]
    by_cases hu : u.truthy = b
    · rw [if_pos (beq_iff_eq.mpr hu), pure_bind, hu]
      exact alike_foldlM_decided hstep hwatch vs
    · rw [if_neg (mt beq_iff_eq.mp hu), Bool.eq_not_iff.mpr hu]
      exact ih

/-- The functions of a small program. -/
inductive Probing where
  /-- Refuses texts and gives other values back. -/
  | probe
  /-- Holds where the other function does not. -/
  | opposite

namespace Probing

/-- A function of the program as a value. -/
def func (c : Probing) : Func Probing := ⟨0, "probe", 1, .host c⟩

/-- The cause for which a text is refused. -/
def refusal (s : String) : Error := .invalidArgument "probe" s

instance : Embedding Probing Unit where
  body
    | probe, args =>
      match argument args 0 with
      | .text s => .fail (refusal s)
      | v => return v
    | opposite, args => return .bool !(← call probe.func [argument args 0]).truthy

/-- Watches the first function. -/
def watched : Func Probing → Bool :=
  Callable.isHost fun
    | probe => true
    | opposite => false

/-- The second function negates the first one. -/
theorem negates_opposite : Negates (S := Unit) watched opposite.func probe.func := by
  intro v
  let probed : Action Probing Unit (Value Probing) := call probe.func [v]
  have hbody : Action.Alike watched Eq (call opposite.func [v] : Action Probing Unit (Value Probing))
      (do return .bool !(← probed).truthy) :=
    alike_call rfl [v]
  have hresult : Action.Alike watched (fun a u : Value Probing => a.truthy = !u.truthy)
      (do return .bool !(← probed).truthy) (probed >>= pure) :=
    (Action.Alike.refl probed).bind fun u _ hu => hu ▸ Action.Alike.pure (Value.truthy_bool !u.truthy)
  rw [bind_pure] at hresult
  exact hbody.eq_trans hresult

/-- The steps of searches are not watched. -/
theorem watched_step (f step : Func Probing) (h : step.SearchesWith f) : watched step = false := by
  rcases h with h | h <;> rw [watched, Callable.isHost, h]

end Probing

section Quantifiers

variable {xs : Value C} {family : Family} {vs : List (Value C)} (hxs : xs.Visits family vs)
  (hprovides : w.registry.Provides xs.typeKey family .foldl)
  (hfold : ∀ g : Func C, g.implements .foldl = true → watch g = false)

include hxs hprovides hfold

/-- Folding calls the function on the visited values and the result so far, up to the first error. -/
theorem shows_foldl_iff (step : Func C) {init : Value C} (hinit : init.isPlaceholder = false)
    (calls : List (SeenCall C)) (r : Except Error (Value C)) (w' : World C S) :
    (Generic.foldl step init xs).Shows watch w calls r w' ↔
      (vs.foldlM (fun acc v => call step [v, acc]) init).Shows watch w calls r w' := by
  have hgiven : ∀ v ∈ [.func step, init, xs], v.isPlaceholder = false := by
    simp only [List.forall_mem_cons, List.not_mem_nil, false_implies, implies_true, and_true]
    exact ⟨rfl, hinit, hxs.isPlaceholder_eq⟩
  rw [Generic.foldl, Method.shows_call_iff_of_provides hfold hprovides rfl hgiven,
    implementation_foldl_eq hxs]

/-- A quantifier is seen to search, once it has made its step. -/
theorem shows_quantifier_iff {name : String} {code : Code C} {f : Func C} {b : Bool}
    (hstep : ∀ id, SearchStep S ⟨id, name, 2, code⟩ f b)
    (hsteps : ∀ id, watch ⟨id, name, 2, code⟩ = false) (calls : List (SeenCall C))
    (r : Except Error Bool) (w' : World C S) :
    (do
      let step ← Action.minting (newFunc name 2 code)
      return (← Generic.foldl step (.bool !b) xs).truthy).Shows watch w calls r w' ↔
      (search f b vs).Shows watch (w.minted 1) calls r w' := by
  have hminting : (Action.minting (newFunc name 2 code) : Action C S (Func C)).Shows watch w []
      (.ok ⟨w.nextId, name, 2, code⟩) (w.minted 1) := ⟨0, rfl⟩
  have hinit : (Value.bool !b : Value C).isPlaceholder = false := rfl
  have hfolded := shows_foldl_iff (w := w.minted 1) hxs hprovides hfold ⟨w.nextId, name, 2, code⟩ hinit
  have hloop := (alike_foldlM_search (hstep w.nextId) (hsteps w.nextId) vs).before fun v =>
    (pure v.truthy : Action C S Bool)
  have hresult : (search f b vs >>= fun c => pure (.bool c) : Action C S (Value C)) >>=
      (fun v => pure v.truthy) = search f b vs := by
    simp only [LawfulMonad.bind_assoc, pure_bind, Value.truthy_bool, bind_pure]
  rw [hresult] at hloop
  rw [hminting.bind_iff, ← alike_eq_iff.mp hloop, shows_bind_pure_iff, shows_bind_pure_iff]
  simp only [hfolded]

/-- Folding a list, a text, a map, a `Maybe` or a `Result` visits values in order. Whether a function
holds on some of them is asked by trying it on these values up to the first on which it holds or ends
with an error, and whether it holds on every one up to the first on which it does not hold or ends with
an error; it is not called again after that. To ask whether a function holds on every value is to deny,
with the same calls, that its negation holds on some. -/
theorem quantifiers_search {f : Func C} (hf : ∀ step, step.SearchesWith f → watch step = false) :
    (∀ (step : Func C) (init : Value C), init.isPlaceholder = false → ∀ calls r w',
      (Generic.foldl step init xs).Shows watch w calls r w' ↔
        (vs.foldlM (fun acc v => call step [v, acc]) init).Shows watch w calls r w') ∧
    (∀ calls r w', (any f xs).Shows watch w calls r w' ↔
      Searched watch (w.minted 1) f true vs calls r w') ∧
    (∀ calls r w', (every f xs).Shows watch w calls r w' ↔
      Searched watch (w.minted 1) f false vs calls r w') ∧
    ∀ g : Func C, Negates (S := S) watch g f → (∀ step, step.SearchesWith g → watch step = false) →
      ∀ calls r w', (every f xs).Shows watch w calls r w' ↔
        (do return !(← any g xs)).Shows watch w calls r w' := by
  have hany : ∀ {h : Func C}, (∀ step, step.SearchesWith h → watch step = false) → ∀ calls r w',
      (any h xs).Shows watch w calls r w' ↔
        (search h true vs).Shows watch (w.minted 1) calls r w' := fun {h} hsteps =>
    shows_quantifier_iff hxs hprovides hfold (searchStep_any h) fun _ => hsteps _ (Or.inl rfl)
  have hevery : ∀ calls r w', (every f xs).Shows watch w calls r w' ↔
      (search f false vs).Shows watch (w.minted 1) calls r w' :=
    shows_quantifier_iff hxs hprovides hfold (searchStep_every f) fun _ => hf _ (Or.inr rfl)
  refine ⟨fun step init hinit => shows_foldl_iff hxs hprovides hfold step hinit,
    fun calls r w' => (hany hf calls r w').trans (shows_search_iff f true vs calls r w'),
    fun calls r w' => (hevery calls r w').trans (shows_search_iff f false vs calls r w'),
    fun g hnegates hg calls r w' => ?_⟩
  have hnot := (alike_search_not hnegates true vs).before fun c => (pure !c : Action C S Bool)
  have hresult : (search f (!true) vs >>= fun c => pure !c : Action C S Bool) >>=
      (fun c => pure !c) = search f false vs := by
    simp only [LawfulMonad.bind_assoc, pure_bind, Bool.not_not, Bool.not_true, bind_pure]
  rw [hresult] at hnot
  rw [hevery, ← alike_eq_iff.mp hnot, shows_bind_pure_iff, shows_bind_pure_iff]
  simp only [hany hg]

end Quantifiers

/-- A map that is searched up to a value that holds, and a list up to an error. -/
theorem quantifiers_search_probe :
    let w : World Probing Unit := World.initial ()
    let entries : Value Probing := .map [("a", .nil), ("b", .bool true), ("c", .text "no")]
    let items : Value Probing := .list [.bool true, .text "no", .nil]
    let seen (v : Value Probing) (r : Except Error (Value Probing)) : SeenCall Probing :=
      ⟨Probing.probe.func, [v], r⟩
    (any Probing.probe.func entries).Shows Probing.watched w
      [seen .nil (.ok .nil), seen (.bool true) (.ok (.bool true))] (.ok true) (w.minted 1) ∧
    (every Probing.probe.func items).Shows Probing.watched w
      [seen (.bool true) (.ok (.bool true)), seen (.text "no") (.error (Probing.refusal "no"))]
      (.error (Probing.refusal "no")) (w.minted 1) ∧
    (do return !(← any Probing.opposite.func items)).Shows Probing.watched w
      [seen (.bool true) (.ok (.bool true)), seen (.text "no") (.error (Probing.refusal "no"))]
      (.error (Probing.refusal "no")) (w.minted 1) := by
  intro w entries items seen
  have hw : w.registry.Standard := Registry.standard_standard firstFreeId
  have hentries : entries.Visits .map [.nil, .bool true, .text "no"] := .map _
  have hlist : items.Visits .list [.bool true, .text "no", .nil] := .list _
  obtain ⟨-, hany, -, -⟩ := quantifiers_search hentries (hw _ _ _ rfl) (Callable.isHost_of_implements _)
    (Probing.watched_step Probing.probe.func)
  obtain ⟨-, -, hevery, hnot⟩ := quantifiers_search hlist (hw _ _ _ rfl) (Callable.isHost_of_implements _)
    (Probing.watched_step Probing.probe.func)
  have hitems : (every Probing.probe.func items).Shows Probing.watched w
      [seen (.bool true) (.ok (.bool true)), seen (.text "no") (.error (Probing.refusal "no"))]
      (.error (Probing.refusal "no")) (w.minted 1) :=
    (hevery _ _ _).mpr (Searched.of_trials [.bool true, .text "no"] ⟨2, rfl⟩ (.next rfl .failed))
  refine ⟨(hany _ _ _).mpr (Searched.of_trials [.nil, .bool true] ⟨2, rfl⟩ (.next rfl (.decided rfl))),
    hitems, ?_⟩
  exact (hnot Probing.opposite.func Probing.negates_opposite
    (Probing.watched_step Probing.opposite.func) _ _ _).mp hitems

end Collection

end DynamicDispatch
