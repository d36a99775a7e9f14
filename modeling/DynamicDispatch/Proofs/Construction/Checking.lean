import DynamicDispatch.Proofs.Action.Agreement
import DynamicDispatch.Proofs.Construction
import DynamicDispatch.Proofs.Currying.Chunks
import DynamicDispatch.Proofs.Rendering

/-!
# What construction checks

Construction checks the values as they are given and stores them fitted to the declared fields. A value
that is missing counts as nil in both, and values beyond the fields count in neither, so every stored
value has been checked. A failed construction reports the fields that do not accept their value, in order.
Collecting the values for a constructor in chunks checks nothing: only the last chunk leads to a
construction, from the first values as many as there are fields, and these are all that counts.
-/

namespace DynamicDispatch

variable {C S α : Type}

open DynamicDispatch.Action

/-- What holds of values that are there and of sequences of which it holds. -/
structure Action.Closed (Q : ∀ α : Type, Action C S α → Prop) : Prop where
  pure : ∀ {α : Type} (a : α), Q α (Pure.pure a)
  bind : ∀ {α β : Type} {p : Action C S α} {f : α → Action C S β},
    Q α p → (∀ a, Q β (f a)) → Q β (p >>= f)

/-- It holds of mapping over a list as soon as it holds for each member. -/
theorem Action.Closed.mapM {Q : ∀ α : Type, Action C S α → Prop} (hQ : Closed Q) {α β : Type}
    {f : α → Action C S β} {xs : List α} (h : ∀ x ∈ xs, Q β (f x)) : Q (List β) (xs.mapM f) := by
  induction xs with
  | nil => exact hQ.pure []
  | cons x xs ih =>
    obtain ⟨hfirst, hrest⟩ := List.forall_mem_cons.mp h
    rw [List.mapM_cons]
    exact hQ.bind hfirst fun _ => hQ.bind (ih hrest) fun _ => hQ.pure _

namespace Descriptor

/-- The first field accepts the first value, and the others those after it. -/
theorem acceptsFields_cons (t : Descriptor (Value C)) (ts : List (Descriptor (Value C)))
    (values : List (Value C)) :
    acceptsFields (t :: ts) values = (t.accepts (argument values 0) && acceptsFields ts values.tail) := by
  cases values <;> simp only [acceptsFields] <;> rfl

/-- A descriptor mentions a value as one of its literals. -/
inductive Mentions (v : Value C) : Descriptor (Value C) → Prop
  | literal : Mentions v (.literal v)
  | oneOf {members : List (Descriptor (Value C))} {t : Descriptor (Value C)} (ht : t ∈ members)
    (h : Mentions v t) : Mentions v (.oneOf members)
  | union {name case : Option String} {fields : List (Descriptor (Value C))}
    {t : Descriptor (Value C)} (ht : t ∈ fields) (h : Mentions v t) :
    Mentions v (.union name case (some fields))
  | listOf {t : Descriptor (Value C)} (h : Mentions v t) : Mentions v (.listOf t)
  | shape {entries : List (String × Descriptor (Value C))} {e : String × Descriptor (Value C)}
    (he : e ∈ entries) (h : Mentions v e.2) : Mentions v (.shape entries)

@[simp]
theorem mentions_literal_iff {u v : Value C} : (Descriptor.literal u).Mentions v ↔ v = u := by
  constructor
  · rintro ⟨⟩
    rfl
  · rintro rfl
    exact .literal

@[simp]
theorem mentions_oneOf_iff {members : List (Descriptor (Value C))} {v : Value C} :
    (Descriptor.oneOf members).Mentions v ↔ ∃ t ∈ members, t.Mentions v := by
  constructor
  · rintro ⟨⟩
    exact ⟨_, ‹_›, ‹_›⟩
  · rintro ⟨t, ht, h⟩
    exact .oneOf ht h

@[simp]
theorem not_mentions_bool (v : Value C) : ¬ (Descriptor.bool (V := Value C)).Mentions v := by
  rintro ⟨⟩

@[simp]
theorem not_mentions_text (v : Value C) : ¬ (Descriptor.text (V := Value C)).Mentions v := by
  rintro ⟨⟩

section Render

variable {Q : ∀ α : Type, Action C S α → Prop} (hQ : Closed Q)

include hQ

mutual

/-- What holds of displaying the literals that a descriptor mentions holds of rendering it. -/
theorem render_of_closed : (t : Descriptor (Value C)) →
    (∀ v, t.Mentions v → Q String (Generic.display v)) → Q String t.render
  | .any, _ | .nil, _ | .bool, _ | .number, _ | .text, _ | .list, _ | .map, _ | .function, _
  | .task, _ | .record _, _ | .union _ _ none, _ => by
    unfold Descriptor.render
    exact hQ.pure _
  | .literal v, h => by
    unfold Descriptor.render
    exact h v .literal
  | .oneOf members, h => by
    unfold Descriptor.render
    exact hQ.bind (renderAll_of_closed members fun t ht v hv => h v (.oneOf ht hv)) fun _ => hQ.pure _
  | .union _ _ (some fields), h => by
    unfold Descriptor.render
    exact hQ.bind (renderAll_of_closed fields fun t ht v hv => h v (.union ht hv)) fun _ => hQ.pure _
  | .listOf t, h => by
    unfold Descriptor.render
    exact hQ.bind (render_of_closed t fun v hv => h v (.listOf hv)) fun _ => hQ.pure _
  | .shape entries, h => by
    unfold Descriptor.render
    exact hQ.bind (renderEntries_of_closed entries fun e he v hv => h v (.shape he hv))
      fun _ => hQ.pure _

theorem renderAll_of_closed : (ts : List (Descriptor (Value C))) →
    (∀ t ∈ ts, ∀ v, t.Mentions v → Q String (Generic.display v)) → Q (List String) (renderAll ts)
  | [], _ => by
    unfold Descriptor.renderAll
    exact hQ.pure _
  | t :: ts, h => by
    obtain ⟨hfirst, hrest⟩ := List.forall_mem_cons.mp h
    unfold Descriptor.renderAll
    exact hQ.bind (render_of_closed t hfirst) fun _ =>
      hQ.bind (renderAll_of_closed ts hrest) fun _ => hQ.pure _

theorem renderEntries_of_closed : (entries : List (String × Descriptor (Value C))) →
    (∀ e ∈ entries, ∀ v, e.2.Mentions v → Q String (Generic.display v)) →
      Q (List String) (renderEntries entries)
  | [], _ => by
    unfold Descriptor.renderEntries
    exact hQ.pure _
  | (k, t) :: entries, h => by
    obtain ⟨hfirst, hrest⟩ := List.forall_mem_cons.mp h
    unfold Descriptor.renderEntries
    exact hQ.bind (render_of_closed t hfirst) fun _ =>
      hQ.bind (renderEntries_of_closed entries hrest) fun _ => hQ.pure _

end

end Render

end Descriptor

namespace Construction

/-- The values after the first one, by position. -/
theorem argument_tail (values : List (Value C)) (i : Nat) :
    argument values.tail i = argument values (i + 1) := by
  simp only [argument, List.getElem?_tail]

/-- There are as many fitted values as fields. -/
theorem length_fit (n : Nat) (values : List (Value C)) : (fit n values).length = n := by
  simp only [fit, List.length_append, List.length_take, List.length_replicate]
  omega

/-- What is stored for a field is the value given for it, or nil. -/
theorem getElem?_fit {n i : Nat} (h : i < n) (values : List (Value C)) :
    (fit n values)[i]? = some (argument values i) := by
  induction n generalizing i values with
  | zero => exact absurd h (Nat.not_lt_zero i)
  | succ n ih =>
    rw [fit_succ]
    cases i with
    | zero => cases values <;> rfl
    | succ i =>
      rw [List.getElem?_cons_succ, ih (Nat.lt_of_succ_lt_succ h), argument_tail]

/-- The fields accept the values given for them. -/
def Accepts (fields : List (String × Descriptor (Value C))) (values : List (Value C)) : Prop :=
  ∀ (i : Nat) (field : String × Descriptor (Value C)), fields[i]? = some field →
    field.2.accepts (argument values i) = true

/-- Construction accepts values as a pattern of a case accepts the values of an instance. -/
theorem accepts_iff_acceptsFields {fields : List (String × Descriptor (Value C))}
    {values : List (Value C)} :
    Accepts fields values ↔ Descriptor.acceptsFields (fields.map (·.2)) values = true := by
  induction fields generalizing values with
  | nil => simp [Accepts, Descriptor.acceptsFields]
  | cons field fields ih =>
    rw [List.map_cons, Descriptor.acceptsFields_cons, Bool.and_eq_true, ← ih]
    constructor
    · intro h
      refine ⟨h 0 field rfl, fun i field' hfield => ?_⟩
      rw [argument_tail]
      exact h (i + 1) field' hfield
    · rintro ⟨hfirst, hrest⟩ i field' hfield
      cases i with
      | zero =>
        obtain rfl := Option.some.inj hfield
        exact hfirst
      | succ i =>
        rw [← argument_tail]
        exact hrest i field' hfield

/-- The field at a position does not accept the value given for it. -/
def Rejects (fields : List (String × Descriptor (Value C))) (values : List (Value C)) (i : Nat) : Prop :=
  ∃ field, fields[i]? = some field ∧ field.2.accepts (argument values i) = false

/-- The fields that do not accept the value given for them, with their positions. -/
def rejected (fields : List (String × Descriptor (Value C))) (values : List (Value C)) :
    List ((String × Descriptor (Value C)) × Nat) :=
  fields.zipIdx.filter fun e => !e.1.2.accepts (argument values e.2)

/-- Reports a field that does not accept the value given for it. -/
def report (values : List (Value C)) (e : (String × Descriptor (Value C)) × Nat) :
    Action C S Violation := do
  return ⟨e.1.1, ← e.1.2.render, ← Generic.display (argument values e.2)⟩

/-- The first field is rejected if it does not accept the first value, and the others as they are for the
values after that. -/
theorem rejected_cons (field : String × Descriptor (Value C))
    (fields : List (String × Descriptor (Value C))) (values : List (Value C)) :
    rejected (field :: fields) values =
      (if field.2.accepts (argument values 0) then [] else [(field, 0)]) ++
        (rejected fields values.tail).map fun e => (e.1, e.2 + 1) := by
  have hshift : fields.zipIdx 1 = fields.zipIdx.map fun e => (e.1, e.2 + 1) := List.zipIdx_succ
  have hrest : (fields.zipIdx 1).filter (fun e => !e.1.2.accepts (argument values e.2)) =
      (rejected fields values.tail).map fun e => (e.1, e.2 + 1) := by
    simp only [rejected, hshift, List.filter_map, Function.comp_def, argument_tail]
  rw [rejected, List.zipIdx_cons, List.filter_cons, hrest]
  cases field.2.accepts (argument values 0) <;> rfl

/-- The violations are the reports of the rejected fields. -/
theorem violations_eq_mapM (fields : List (String × Descriptor (Value C))) (values : List (Value C)) :
    (violations fields values : Action C S (List Violation)) =
      (rejected fields values).mapM (report values) := by
  induction fields generalizing values with
  | nil => rfl
  | cons field fields ih =>
    have hfirst : values.headD .nil = argument values 0 := by cases values <;> rfl
    have hreport : (fun e : (String × Descriptor (Value C)) × Nat =>
        (report values (e.1, e.2 + 1) : Action C S Violation)) = report values.tail := by
      funext e
      rw [report, report, argument_tail]
    rw [violations, rejected_cons, hfirst]
    split
    · rw [List.nil_append, List.mapM_map, ih]
      exact congrArg (List.mapM · _) hreport.symm
    · rw [List.singleton_append, List.mapM_cons, List.mapM_map, ih, ← hreport]
      simp only [report, LawfulMonad.bind_assoc, pure_bind, Function.comp_def]

/-- The positions of the rejected fields ascend. -/
theorem pairwise_rejected (fields : List (String × Descriptor (Value C))) (values : List (Value C)) :
    ((rejected fields values).map (·.2)).Pairwise (· < ·) := by
  have hpositions : (fields.zipIdx.map (·.2)).Pairwise (· < ·) := by
    rw [List.zipIdx_map_snd]
    exact List.pairwise_lt_range'
  exact hpositions.sublist (List.filter_sublist.map _)

/-- Every field that does not accept its value is rejected, and no other. -/
theorem mem_rejected_iff {fields : List (String × Descriptor (Value C))} {values : List (Value C)}
    {field : String × Descriptor (Value C)} {i : Nat} :
    (field, i) ∈ rejected fields values ↔
      fields[i]? = some field ∧ field.2.accepts (argument values i) = false := by
  rw [rejected, List.mem_filter, List.mem_zipIdx_iff_getElem?, Bool.not_eq_true']

/-- The positions of the rejected fields are those at which the value is not accepted. -/
theorem mem_positions_iff {fields : List (String × Descriptor (Value C))} {values : List (Value C)}
    (i : Nat) : i ∈ (rejected fields values).map (·.2) ↔ Rejects fields values i := by
  rw [List.mem_map]
  constructor
  · rintro ⟨⟨field, i⟩, he, rfl⟩
    exact ⟨field, mem_rejected_iff.mp he⟩
  · rintro ⟨field, hrejects⟩
    exact ⟨(field, i), mem_rejected_iff.mpr hrejects, rfl⟩

/-- Nothing is rejected exactly when every field accepts its value. -/
theorem rejected_eq_nil_iff {fields : List (String × Descriptor (Value C))} {values : List (Value C)} :
    rejected fields values = [] ↔ Accepts fields values := by
  rw [List.eq_nil_iff_forall_not_mem]
  constructor
  · intro h i field hfield
    by_contra hrejects
    exact h (field, i) (mem_rejected_iff.mpr ⟨hfield, Bool.eq_false_iff.mpr hrejects⟩)
  · rintro h ⟨field, i⟩ hmem
    obtain ⟨hfield, hrejects⟩ := mem_rejected_iff.mp hmem
    exact Bool.false_ne_true (hrejects.symm.trans (h i field hfield))

/-- What is stored has been checked. -/
theorem Accepts.forall₂_fit {fields : List (String × Descriptor (Value C))} {values : List (Value C)}
    (h : Accepts fields values) :
    List.Forall₂ (fun field v => field.2.accepts v = true) fields (fit fields.length values) := by
  refine List.forall₂_iff_get.mpr ⟨(length_fit _ _).symm, fun i hi hi' => ?_⟩
  have hstored := getElem?_fit hi values
  rw [List.getElem?_eq_getElem hi', Option.some.injEq] at hstored
  rw [List.get_eq_getElem, List.get_eq_getElem, hstored]
  exact h i _ (List.getElem?_eq_getElem hi)

/-- A value if nothing is rejected, and otherwise the error that has the reports of what is rejected, under
a title. -/
def checked (fields : List (String × Descriptor (Value C))) (values : List (Value C)) (built : Value C)
    (title : Action C S String) : Action C S (Value C) :=
  if (rejected fields values).isEmpty then return built
  else do
    let violated ← (rejected fields values).mapM (report values)
    .fail (.construction (← title) violated)

/-- This is how construction goes on from the violations. -/
theorem checked_eq (fields : List (String × Descriptor (Value C))) (values : List (Value C))
    (built : Value C) (title : Action C S String) :
    checked fields values built title = (do
      let violated ← violations fields values
      if violated.isEmpty then return built
      else .fail (.construction (← title) violated)) := by
  rw [checked, violations_eq_mapM]
  cases rejected fields values with
  | nil => rfl
  | cons e rest =>
    simp only [List.isEmpty_cons, List.mapM_cons, LawfulMonad.bind_assoc, pure_bind,
      Bool.false_eq_true, if_false]

section Checks

variable [Embedding C S]

/-- A violation that reports the field at a position for the values given: by its label, and by texts that
the field's descriptor and the value are rendered as. -/
def Reports (S : Type) [Embedding C S] (fields : List (String × Descriptor (Value C)))
    (values : List (Value C)) (i : Nat) (violation : Violation) : Prop :=
  ∃ field, fields[i]? = some field ∧ violation.field = field.1 ∧
    (∃ w w' : World C S, field.2.render.Yields w (.ok violation.expected) w') ∧
    ∃ w w' : World C S, (Generic.display (argument values i)).Yields w (.ok violation.actual) w'

/-- The report of a rejected field reports it. -/
theorem leaves_report {fields : List (String × Descriptor (Value C))} {values : List (Value C)}
    {e : (String × Descriptor (Value C)) × Nat} (he : e ∈ rejected fields values)
    (watch : Func C → Bool) :
    (report values e : Action C S Violation).Leaves watch (fun _ => True)
      (Reports S fields values e.2) := by
  have hany : ∀ p : Action C S String, p.Leaves watch (fun _ => True) fun _ => True :=
    fun _ _ _ _ _ _ _ => ⟨trivial, trivial⟩
  refine (hany _).yielded.bind fun expected hexpected => (hany _).yielded.bind fun actual hactual =>
    Leaves.pure ?_
  obtain ⟨w, w', -, hexpected⟩ := hexpected
  obtain ⟨u, u', -, hactual⟩ := hactual
  exact ⟨e.1, (mem_rejected_iff.mp he).1, rfl, ⟨w, w', hexpected⟩, u, u', hactual⟩

/-- An action of which no error is seen. -/
def NeverFails (p : Action C S α) : Prop :=
  ∀ w calls r w', p.Shows (fun _ => false) w calls r w' → ∃ a, r = .ok a

/-- Sequences of such actions are such. -/
theorem closed_neverFails : Closed (C := C) (S := S) fun _ p => NeverFails p := by
  refine ⟨fun a w calls r w' h => ⟨a, (shows_pure_iff.mp h).2.1⟩, fun hp hf w calls r w' h => ?_⟩
  rcases shows_bind_iff.mp h with ⟨_, a, w₁, _, -, hrest, -⟩ | ⟨e, herror, -⟩
  · exact hf a w₁ _ r w' hrest
  · obtain ⟨a, ha⟩ := hp w _ _ _ herror
    cases ha

/-- Actions that end without an error are kept by sequences. -/
theorem closed_ends (I : World C S → Prop) :
    Closed (C := C) (S := S) fun _ p => p.Ends I False fun _ => True :=
  ⟨fun _ => Ends.pure trivial, fun hp hf => hp.bind fun a _ => hf a⟩

/-- Reporting and naming never fail, as values are displayed always. -/
theorem neverFails_display (v : Value C) : NeverFails (Generic.display v : Action C S String) :=
  fun _ _ _ _ h => h.of_display

/-- Construction checks values against fields.

It succeeds exactly when every field accepts the value given for it, a missing one counting as nil; it
stores the values cut or filled up with nil to the number of fields, and every field accepts what is
stored for it. If it fails, the error has one violation for each position at which the value is not
accepted, in ascending order. Where some value is not accepted it does fail, as long as the texts for the
report come to an end: those of the literals of the descriptors and of the rejected values. -/
structure Checks (S : Type) [Embedding C S] (fields : List (String × Descriptor (Value C)))
    (stored : List (Value C) → Value C) (construct : List (Value C) → Action C S (Value C)) : Prop where
  succeeds_iff : ∀ values (w : World C S) v w', (construct values).Yields w (.ok v) w' ↔
    Accepts fields values ∧ v = stored (fit fields.length values) ∧ w' = w
  stores : ∀ values, Accepts fields values →
    List.Forall₂ (fun field v => field.2.accepts v = true) fields (fit fields.length values)
  reports : ∀ values (w : World C S) e w', (construct values).Yields w (.error e) w' →
    ∃ title violated positions, e = .construction title violated ∧ positions ≠ [] ∧
      positions.Pairwise (· < ·) ∧ (∀ i, i ∈ positions ↔ Rejects fields values i) ∧
      List.Forall₂ (Reports S fields values) positions violated
  fails : ∀ values, ¬ Accepts fields values → ∀ I : World C S → Prop,
    (∀ field ∈ fields, ∀ v, field.2.Mentions v →
      (Generic.display v : Action C S String).Ends I False fun _ => True) →
    (∀ i, Rejects fields values i →
      (Generic.display (argument values i) : Action C S String).Ends I False fun _ => True) →
    ∀ w, I w → ∃ e w', (construct values).Yields w (.error e) w'

/-- Values that are not all accepted are reported, where the texts for the report come to an end. -/
theorem Checks.exists_reports {fields : List (String × Descriptor (Value C))}
    {stored : List (Value C) → Value C} {construct : List (Value C) → Action C S (Value C)}
    (h : Checks S fields stored construct) {values : List (Value C)} (hrejects : ¬ Accepts fields values)
    {I : World C S → Prop}
    (hliterals : ∀ field ∈ fields, ∀ v, field.2.Mentions v →
      (Generic.display v : Action C S String).Ends I False fun _ => True)
    (hvalues : ∀ i, (Generic.display (argument values i) : Action C S String).Ends I False
      fun _ => True) {w : World C S} (hw : I w) :
    ∃ title violated positions w', (construct values).Yields w (.error (.construction title violated)) w' ∧
      (∀ i, i ∈ positions ↔ Rejects fields values i) ∧
      List.Forall₂ (Reports S fields values) positions violated := by
  obtain ⟨e, w', hfails⟩ := h.fails values hrejects I hliterals (fun i _ => hvalues i) w hw
  obtain ⟨title, violated, positions, rfl, -, -, hpositions, hreports⟩ := h.reports _ _ _ _ hfails
  exact ⟨title, violated, positions, w', hfails, hpositions, hreports⟩

/-- Where something is rejected, the reports are the error's violations. -/
theorem checked_reports {fields : List (String × Descriptor (Value C))} {values : List (Value C)}
    {built : Value C} {title : Action C S String} (htitle : NeverFails title)
    (hrejected : rejected fields values ≠ []) {w w' : World C S} {r : Except Error (Value C)}
    (h : (checked fields values built title).Yields w r w') :
    ∃ name violated positions, r = .error (.construction name violated) ∧ positions ≠ [] ∧
      positions.Pairwise (· < ·) ∧ (∀ i, i ∈ positions ↔ Rejects fields values i) ∧
      List.Forall₂ (Reports S fields values) positions violated := by
  obtain ⟨calls, hshows⟩ := (yields_iff_shows fun _ => false).mp h
  rw [checked, if_neg (mt List.isEmpty_iff.mp hrejected)] at hshows
  have hneverFails : NeverFails ((rejected fields values).mapM (report values) : Action C S _) :=
    closed_neverFails.mapM fun e _ =>
      closed_neverFails.bind (e.1.2.render_of_closed closed_neverFails fun v _ => neverFails_display v)
        fun _ => closed_neverFails.bind (neverFails_display _) fun _ => closed_neverFails.pure _
  rcases shows_bind_iff.mp hshows with ⟨_, violated, u, _, hreports, hfails, -⟩ | ⟨e, herror, -⟩
  · rcases shows_bind_iff.mp hfails with ⟨_, name, _, _, -, hfailed, -⟩ | ⟨e, herror, -⟩
    · obtain ⟨-, rfl, -⟩ := shows_done_iff.mp hfailed
      obtain ⟨-, hviolated⟩ :=
        Leaves.mapM (fun e he => leaves_report (S := S) he fun _ => false) w trivial _ _ _ hreports
      exact ⟨name, violated, _, rfl, mt List.map_eq_nil_iff.mp hrejected, pairwise_rejected _ _,
        mem_positions_iff, List.forall₂_map_left_iff.mpr hviolated⟩
    · obtain ⟨a, ha⟩ := htitle _ _ _ _ herror
      cases ha
  · obtain ⟨a, ha⟩ := hneverFails _ _ _ _ herror
    cases ha

/-- What goes on from the violations with a title that never fails, and that ends as far as the literals
are displayed, checks values against the fields. -/
theorem checks_of_eq {fields : List (String × Descriptor (Value C))}
    {stored : List (Value C) → Value C} {construct : List (Value C) → Action C S (Value C)}
    (title : Action C S String)
    (h : ∀ values, construct values = checked fields values (stored (fit fields.length values)) title)
    (htitle : ∀ Q : ∀ α : Type, Action C S α → Prop, Closed Q →
      (∀ field ∈ fields, ∀ v, field.2.Mentions v → Q String (Generic.display v)) → Q String title) :
    Checks S fields stored construct := by
  have hneverFails : NeverFails title :=
    htitle _ closed_neverFails fun _ _ v _ => neverFails_display v
  have hok : ∀ values, Accepts fields values →
      construct values = pure (stored (fit fields.length values)) := by
    intro values haccepts
    rw [h, checked, rejected_eq_nil_iff.mpr haccepts]
    rfl
  refine ⟨fun values w v w' => ⟨fun hyields => ?_, ?_⟩, fun values haccepts => haccepts.forall₂_fit,
    fun values w e w' hyields => ?_, fun values hrejects I hliterals hvalues w hw => ?_⟩
  · by_cases haccepts : Accepts fields values
    · rw [hok values haccepts] at hyields
      obtain ⟨hv, rfl⟩ := hyields.unique (yields_pure _ w)
      exact ⟨haccepts, Except.ok.inj hv, rfl⟩
    · rw [h] at hyields
      obtain ⟨_, _, _, hr, -⟩ := checked_reports hneverFails (mt rejected_eq_nil_iff.mp haccepts) hyields
      cases hr
  · rintro ⟨haccepts, rfl, rfl⟩
    rw [hok values haccepts]
    exact yields_pure _ w'
  · by_cases haccepts : Accepts fields values
    · rw [hok values haccepts] at hyields
      cases (hyields.unique (yields_pure _ w)).1
    · rw [h] at hyields
      obtain ⟨name, violated, positions, hr, hreports⟩ :=
        checked_reports hneverFails (mt rejected_eq_nil_iff.mp haccepts) hyields
      exact ⟨name, violated, positions, Except.error.inj hr, hreports⟩
  · have hreports : ((rejected fields values).mapM (report values)).Ends I False fun _ => True := by
      refine (closed_ends I).mapM fun e he => ?_
      obtain ⟨hfield, hrejected⟩ := mem_rejected_iff.mp he
      have hexpected := e.1.2.render_of_closed (closed_ends I) (hliterals e.1 (List.mem_of_getElem? hfield))
      have hactual := hvalues e.2 ⟨e.1, hfield, hrejected⟩
      exact (closed_ends I).bind hexpected fun _ =>
        (closed_ends I).bind hactual fun _ => (closed_ends I).pure _
    obtain ⟨violated, u, hviolated, hu, -⟩ | ⟨hfalse, -⟩ := hreports w hw
    · obtain ⟨name, u', hname, -, -⟩ | ⟨hfalse, -⟩ := htitle _ (closed_ends I) hliterals u hu
      · rw [h, checked, if_neg (mt List.isEmpty_iff.mp (mt rejected_eq_nil_iff.mp hrejects))]
        exact ⟨_, u', hviolated.bind (hname.bind (yields_done _ u'))⟩
      · exact hfalse.elim
    · exact hfalse.elim

end Checks

end Construction

open Construction

variable [Embedding C S]

/-- A record type checks the values for its fields. -/
theorem RecordType.checks (type : RecordType (Value C)) :
    Checks S type.fields (.record type) type.construct := by
  refine checks_of_eq (do
    return type.name ++ "(" ++ (← (Descriptor.shape type.fields).render) ++ ")") ?_ ?_
  · intro values
    rw [checked_eq, construct]
    simp only [LawfulMonad.bind_assoc, pure_bind]
  · intro Q hQ hliterals
    refine hQ.bind (Descriptor.render_of_closed hQ _ fun v hv => ?_) fun _ => hQ.pure _
    cases hv with
    | shape he h => exact hliterals _ he v h

/-- A union type checks the values for the fields of a declared case. -/
theorem UnionType.checks {type : UnionType (Value C)} {case : String}
    {fields : List (Descriptor (Value C))} (h : type.caseFields? case = some fields) :
    Checks S (positions fields) (type.make case) (type.construct case) := by
  refine checks_of_eq (do
    return type.name ++ "." ++ case ++ "(" ++ ", ".intercalate (← Descriptor.renderAll fields) ++ ")")
    ?_ ?_
  · intro values
    rw [checked_eq, length_positions]
    simp only [construct, h, LawfulMonad.bind_assoc, pure_bind]
  · intro Q hQ hliterals
    refine hQ.bind (Descriptor.renderAll_of_closed hQ _ fun t ht v hv => ?_) fun _ => hQ.pure _
    rw [← map_snd_positions fields] at ht
    obtain ⟨field, hfield, rfl⟩ := List.mem_map.mp ht
    exact hliterals field hfield v hv

end DynamicDispatch
