import DynamicDispatch.Matching
import DynamicDispatch.Proofs.Rendering

/-!
# Which handler runs

Both matchers check the handlers against all cases that the subject's type declares and then choose by
the case that it holds. The choice and the check read the same entries, so that a check that has passed
leaves a handler to run, and handlers put together arm by arm do what the list of them does.
-/

namespace DynamicDispatch

variable {C S : Type}

namespace Matching

/-- The declared cases of a type without an entry of their own, in the order of their declaration. -/
def uncovered (type : UnionType (Value C)) (handlers : List (String × Func C)) : List String :=
  type.caseNames.filter (· ∉ handlers.map (·.1))

/-- What a matcher does with a subject: the check, and then the call of the first handler of the case or
of the one for the cases without a handler. -/
def dispatch (handlers : List (String × Func C)) (otherwise : Option (Func C)) :
    UnionType (Value C) × String × List (Value C) → Action C S (Value C)
  | (type, case, fields) => do
    .done (checkExhaustive type (handlers.map (·.1)) otherwise.isSome)
    match (handler? case handlers).or otherwise with
    | some f => call f fields
    | none => .fail (.nonExhaustiveMatch type.name [case])

/-- Handlers that leave cases uncovered are refused unless there is one for every case. -/
theorem checkExhaustive_eq (type : UnionType (Value C)) (handlers : List (String × Func C))
    (hasWildcard : Bool) :
    checkExhaustive type (handlers.map (·.1)) hasWildcard =
      if hasWildcard = true ∨ uncovered type handlers = [] then .ok ()
      else .error (.nonExhaustiveMatch type.name (uncovered type handlers)) := by
  have huncovered : (type.caseNames.filter fun case => !(handlers.map (·.1)).contains case) =
      uncovered type handlers := by
    simp only [uncovered, List.contains_eq_mem, decide_not]
  rw [checkExhaustive, huncovered]
  cases hasWildcard with
  | true => rfl
  | false => simp [List.isEmpty_iff]

/-- A name has a handler exactly when it has an entry. -/
theorem isSome_handler?_iff {name : String} {handlers : List (String × Func C)} :
    (handler? name handlers).isSome = true ↔ name ∈ handlers.map (·.1) := by
  rw [handler?, Option.isSome_map, List.find?_isSome, List.mem_map]
  simp only [beq_iff_eq]

/-- A declared case that is covered has a handler. -/
theorem exists_handler? {type : UnionType (Value C)} {handlers : List (String × Func C)}
    (h : uncovered type handlers = []) {index : Nat} {case : String}
    {descriptors : List (Descriptor (Value C))} (hcase : type.cases[index]? = some (case, descriptors)) :
    ∃ f, handler? case handlers = some f := by
  have hmem : case ∈ type.caseNames := List.mem_map_of_mem (List.mem_of_getElem? hcase)
  have hentry := List.filter_eq_nil_iff.mp h case hmem
  rw [decide_eq_true_eq, not_not] at hentry
  exact Option.isSome_iff_exists.mp (isSome_handler?_iff.mpr hentry)

/-- On a subject of a declared case a matcher refuses handlers that leave cases uncovered, and otherwise
it calls one handler, once. -/
theorem dispatch_declared (handlers : List (String × Func C)) (otherwise : Option (Func C))
    {type : UnionType (Value C)} {index : Nat} {case : String}
    {descriptors : List (Descriptor (Value C))}
    (hcase : type.cases[index]? = some (case, descriptors)) (fields : List (Value C)) :
    (otherwise = none ∧ uncovered type handlers ≠ [] →
      (dispatch handlers otherwise (type, case, fields) : Action C S (Value C)) =
        .fail (.nonExhaustiveMatch type.name (uncovered type handlers))) ∧
    (¬(otherwise = none ∧ uncovered type handlers ≠ []) →
      ∃ f, (handler? case handlers).or otherwise = some f ∧
        (dispatch handlers otherwise (type, case, fields) : Action C S (Value C)) = call f fields) := by
  simp only [dispatch, checkExhaustive_eq]
  constructor
  · rintro ⟨rfl, huncovered⟩
    rw [if_neg (by simpa using huncovered)]
    rfl
  · intro hcovers
    have hcovers : otherwise.isSome = true ∨ uncovered type handlers = [] := by
      cases otherwise with
      | none => exact Or.inr (by simpa using hcovers)
      | some f => exact Or.inl rfl
    obtain ⟨f, hf⟩ : ∃ f, (handler? case handlers).or otherwise = some f := by
      rcases hcovers with hsome | hcovered
      · exact Option.isSome_iff_exists.mp (by simp [hsome])
      · obtain ⟨f, hf⟩ := exists_handler? hcovered hcase
        exact ⟨f, by rw [hf, Option.some_or]⟩
    refine ⟨f, hf, ?_⟩
    rw [if_pos hcovers]
    simp only [hf]
    rfl

/-- The entries without those for every case do not change what a matcher does that has the first of
these for the cases without a handler. -/
theorem dispatch_filter (handlers : List (String × Func C))
    (subject : UnionType (Value C) × String × List (Value C)) :
    (dispatch (handlers.filter (·.1 != wildcard)) (handler? wildcard handlers) subject :
        Action C S (Value C)) =
      dispatch handlers (handler? wildcard handlers) subject := by
  obtain ⟨type, case, fields⟩ := subject
  cases hwildcard : handler? wildcard handlers with
  | none =>
    have hall : ∀ e ∈ handlers, (e.1 != wildcard) = true := by
      simpa [handler?, List.find?_eq_none] using hwildcard
    rw [List.filter_eq_self.mpr hall]
  | some f =>
    -- The check passes; a case of the reserved name has the same handler from either side.
    have hchosen : (handler? case (handlers.filter (·.1 != wildcard))).or (some f) =
        (handler? case handlers).or (some f) := by
      by_cases hcase : case = wildcard
      · subst hcase
        have hnone : handler? wildcard (handlers.filter (·.1 != wildcard)) = none := by
          simp [handler?, List.find?_filter]
        rw [hnone, hwildcard]
        rfl
      · have hsame : handler? case (handlers.filter (·.1 != wildcard)) = handler? case handlers := by
          unfold handler?
          rw [List.find?_filter]
          congr 2
          funext e
          by_cases he : e.1 = case
          · simp [he, hcase]
          · simp [he]
        rw [hsame]
    simp only [dispatch, Option.isSome_some, checkExhaustive_eq, true_or, if_true, hchosen]

end Matching

open Matching

namespace Cases

/-- Arms put together one after the other are the arms. -/
theorem ofArms_eq (arms : List (String × Func C)) : ofArms arms = { arms := arms } := by
  have hfold : ∀ (arms : List (String × Func C)) (cases : Cases C),
      arms.foldl (fun cases arm => cases.on arm.1 arm.2) cases =
        { cases with arms := cases.arms ++ arms } := by
    intro arms
    induction arms with
    | nil => simp
    | cons arm arms ih => exact fun cases => (ih (cases.on arm.1 arm.2)).trans (by simp [on])
  exact hfold arms {}

/-- The handlers of a list put together arm by arm: the entries of a case in their order, and the first
one for every case, if there is one, for the cases without an arm. -/
def ofHandlers (handlers : List (String × Func C)) : Cases C :=
  let arms := ofArms (handlers.filter (·.1 != wildcard))
  match handler? wildcard handlers with
  | some f => arms.orElse f
  | none => arms

/-- The arm at the first position of a case is its first handler. -/
theorem run_eq (cases : Cases C) (v : Value C) :
    (cases.run v : Action C S (Value C)) = subject v >>= dispatch cases.arms cases.otherwise := by
  unfold run
  refine congrArg (subject v >>= ·) (funext fun ⟨type, case, fields⟩ => ?_)
  simp only [dispatch, ← List.find?_eq_bind_findIdx?_getElem?, handler?]
  cases cases.arms.find? (·.1 == case) with
  | some arm => rfl
  | none => cases cases.otherwise <;> rfl

/-- Handlers put together arm by arm do what the list of them does. -/
theorem run_ofHandlers (handlers : List (String × Func C)) (v : Value C) :
    ((ofHandlers handlers).run v : Action C S (Value C)) = caseOf handlers v := by
  have hparts : (ofHandlers handlers).arms = handlers.filter (·.1 != wildcard) ∧
      (ofHandlers handlers).otherwise = handler? wildcard handlers := by
    unfold ofHandlers
    rw [ofArms_eq]
    cases handler? wildcard handlers <;> exact ⟨rfl, rfl⟩
  rw [run_eq, hparts.1, hparts.2]
  exact congrArg (subject v >>= ·) (funext (dispatch_filter handlers))

end Cases

section Subjects

open DynamicDispatch.Action

variable [Embedding C S]

/-- A value that is no union instance is displayed and refused. -/
theorem shows_caseOf_iff (handlers : List (String × Func C)) {v : Value C} (hv : v.kind ≠ .union)
    {watch : Func C → Bool} {w w' : World C S} {calls : List (SeenCall C)}
    {r : Except Error (Value C)} :
    (caseOf handlers v).Shows watch w calls r w' ↔
      ∃ text, (Generic.display v).Shows watch w calls (.ok text) w' ∧
        r = .error (.typeMismatch "case_of" "a union type" text) := by
  have hcase : (caseOf handlers v : Action C S (Value C)) =
      Generic.display v >>= fun text => .fail (.typeMismatch "case_of" "a union type" text) := by
    cases v with
    | union type index fields => exact absurd rfl hv
    | _ => exact Action.bind_assoc _ _ _
  rw [hcase, shows_bind_iff]
  constructor
  · rintro (⟨_, text, _, _, hdisplay, hfail, rfl⟩ | ⟨e, hdisplay, -⟩)
    · obtain ⟨rfl, rfl, rfl⟩ := shows_done_iff.mp hfail
      exact ⟨text, by simpa using hdisplay, rfl⟩
    · obtain ⟨text, htext⟩ := hdisplay.of_display
      cases htext
  · rintro ⟨text, hdisplay, rfl⟩
    exact Or.inl ⟨calls, text, w', [], hdisplay, shows_done_iff.mpr ⟨rfl, rfl, rfl⟩, by simp⟩

/-- A value that is no union is refused as such, named as it is displayed, wherever displaying it ends,
which it does wherever the registered renderings end. A union instance is refused exactly when no
entry stands for every case and some declared case has none of its own, by these cases in the order of
their declaration, whichever case it holds; no handler runs then. Otherwise exactly one handler runs,
once, on the instance's fields: the first one of its case, or else the first one for every case. Handlers
put together arm by arm do the same. -/
theorem caseOf_runs_one_handler (handlers : List (String × Func C)) :
    (∀ v : Value C, v.kind ≠ .union →
      (∀ (watch : Func C → Bool) (w : World C S) calls r w',
        (caseOf handlers v).Shows watch w calls r w' ↔
          ∃ text, (Generic.display v).Shows watch w calls (.ok text) w' ∧
            r = .error (.typeMismatch "case_of" "a union type" text)) ∧
      ∀ (I : World C S → Prop) (fails : Prop) (P : Value C → Prop), Rendering I fails P → P v →
        ∀ w, I w → ∃ text w', I w' ∧
          (caseOf handlers v).Yields w (.error (.typeMismatch "case_of" "a union type" text)) w') ∧
    (∀ (type : UnionType (Value C)) index fields case descriptors,
      type.cases[index]? = some (case, descriptors) →
      (handler? wildcard handlers = none ∧ uncovered type handlers ≠ [] →
        (caseOf handlers (.union type index fields) : Action C S (Value C)) =
          .fail (.nonExhaustiveMatch type.name (uncovered type handlers))) ∧
      (¬(handler? wildcard handlers = none ∧ uncovered type handlers ≠ []) →
        ∃ f, (handler? case handlers).or (handler? wildcard handlers) = some f ∧
          (caseOf handlers (.union type index fields) : Action C S (Value C)) = call f fields)) ∧
    ∀ v : Value C, ((Cases.ofHandlers handlers).run v : Action C S (Value C)) = caseOf handlers v := by
  refine ⟨fun v hv => ⟨fun watch w calls r w' => shows_caseOf_iff handlers hv, ?_⟩, ?_,
    Cases.run_ofHandlers handlers⟩
  · intro I fails P hrendering hP w hw
    rcases hrendering.display hP w hw with ⟨text, w', hdisplay, hI, -⟩ | ⟨hfalse, -⟩
    · obtain ⟨calls, hdisplay⟩ := (yields_iff_shows fun _ => false).mp hdisplay
      exact ⟨text, w', hI, ((shows_caseOf_iff handlers hv).mpr ⟨text, hdisplay, rfl⟩).yields⟩
    · exact hfalse.elim
  · intro type index fields case descriptors hcase
    have hdispatch := dispatch_declared (S := S) handlers (handler? wildcard handlers) hcase fields
    have hname : type.caseName index = case := by simp [UnionType.caseName, hcase]
    rw [← hname] at hdispatch ⊢
    exact hdispatch

/-- A union declares a case of the name that stands for every case: an entry of this name is for both,
so that it covers the other case; without it both are named. A list holds no union's case. -/
theorem caseOf_runs_one_handler_reserved :
    let type : UnionType (Value Empty) := ⟨firstFreeId, "T", [("A", [.any]), ("_", [])]⟩
    let f : Func Empty := ⟨0, "f", 1, .pipe []⟩
    let g : Func Empty := ⟨1, "g", 1, .pipe []⟩
    (caseOf [("B", g), ("_", f), ("_", g)] (.union type 0 [.nil]) : Action Empty Unit (Value Empty)) =
        call f [.nil] ∧
      (caseOf [("B", g)] (.union type 1 []) : Action Empty Unit (Value Empty)) =
        .fail (.nonExhaustiveMatch "T" ["A", "_"]) ∧
      ∃ text, (caseOf [("_", f)] (.list [.nil])).Yields (World.initial ())
        (.error (.typeMismatch "case_of" "a union type" text)) (World.initial ()) := by
  intro type f g
  obtain ⟨-, hunion, -⟩ :=
    caseOf_runs_one_handler (C := Empty) (S := Unit) [("B", g), ("_", f), ("_", g)]
  obtain ⟨-, huncovered, -⟩ := caseOf_runs_one_handler (C := Empty) (S := Unit) [("B", g)]
  obtain ⟨hlist, -⟩ := caseOf_runs_one_handler (C := Empty) (S := Unit) [("_", f)]
  refine ⟨?_, (huncovered type 1 [] "_" [] rfl).1 ⟨rfl, by decide⟩, ?_⟩
  · obtain ⟨h, hh, heq⟩ := (hunion type 0 [.nil] "A" [.any] rfl).2 (by simp [handler?, wildcard])
    obtain rfl : f = h := Option.some.inj hh
    exact heq
  · have hstandard : (World.initial (C := Empty) ()).registry.Standard :=
      Registry.standard_standard firstFreeId
    have hplain : ∀ x : Value Empty, x.Inside (.list [.nil]) → x.kind = .plain := by
      intro x hx
      cases hx with
      | whole => rfl
      | part hy hx =>
        obtain rfl := List.mem_singleton.mp hy
        cases hx with
        | whole => rfl
        | part hy _ => cases hy
    obtain ⟨text, _, rfl, hyields⟩ := (hlist (.list [.nil]) (by decide)).2 _ _ _
      (rendering_byFamily (World.initial ())) (hstandard.rendersByFamily hplain) _ rfl
    exact ⟨text, hyields⟩

end Subjects

end DynamicDispatch
