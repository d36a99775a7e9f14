import DynamicDispatch.Proofs.Methods.Provided

/-!
# What the library does to the world

Whatever the library does, it changes the world in few ways: it hands out identities, keeps mailboxes
and the list of started children, and settles the cells of tasks, of which it makes those that it
settles by itself. Registrations, the definitions of multimethods and the state of the embedding
program it leaves alone. So terms that tolerate this much are kept by every request, given that the
functions of the embedding program keep them: one walk through all operations shows it for all such
terms.
-/

namespace DynamicDispatch

variable {C S α β : Type}

namespace Terms

/-- An action keeps the terms, whatever its result is. -/
def Kept (T : Terms C S) (p : Action C S α) : Prop := T.Keeps (fun _ => True) p

/-- Terms that tolerate what the library does. `own` says of which cells it may be taken that the
library has made them. -/
structure Tolerates (T : Terms C S) (own : Nat → Prop) : Prop where
  passOn : T.PassOn fun _ => True
  asks : ∀ q, T.asks q
  /-- A change of mailboxes or of what was started. -/
  move : ∀ {w w' : World C S}, T.worlds w → w'.registry = w.registry → w'.cells = w.cells →
    w'.nextId = w.nextId → T.moves w w' ∧ T.worlds w'
  newCell : T.Keeps own Recipe.newCell
  settle : ∀ {cell : Nat} (o : Outcome (Value C)), own cell →
    T.Kept (DynamicDispatch.settle cell o)

variable {T : Terms C S} {own : Nat → Prop}

namespace Kept

theorem pure (a : α) : T.Kept (Pure.pure a : Action C S α) := Keeps.pure trivial

theorem fail (e : Error) : T.Kept (Action.fail e : Action C S α) := Keeps.fail e

theorem done (r : Except Error α) : T.Kept (.done r : Action C S α) := Keeps.done fun _ _ => trivial

theorem bind {p : Action C S α} {f : α → Action C S β} (hp : T.Kept p) (hf : ∀ a, T.Kept (f a)) :
    T.Kept (p >>= f) :=
  Keeps.bind hp fun a _ => hf a

theorem attempt {p : Action C S α} (hp : T.Kept p) : T.Kept p.attempt :=
  (Keeps.attempt hp).mono fun _ _ => trivial

theorem world : T.Kept (Action.world : Action C S (World C S)) := fun _ _ _ _ => trivial

theorem mailbox (id : Nat) : T.Kept (DynamicDispatch.mailbox id : Action C S (Mailbox C)) :=
  bind world fun _ => pure _

theorem mapM {f : α → Action C S β} {as : List α} (hf : ∀ a ∈ as, T.Kept (f a)) :
    T.Kept (as.mapM f) :=
  Keeps.mapM_any hf

theorem forM {f : α → Action C S PUnit} {as : List α} (hf : ∀ a ∈ as, T.Kept (f a)) :
    T.Kept (as.forM f) :=
  Keeps.forM hf

theorem foldlM {f : β → α → Action C S β} (as : List α) (b : β) (hf : ∀ b a, T.Kept (f b a)) :
    T.Kept (as.foldlM f b) :=
  Keeps.foldlM trivial fun b a _ _ => hf b a

end Kept

namespace Tolerates

theorem request (h : T.Tolerates own) (q : Request C) :
    T.Kept (Action.request q : Action C S q.Answer) :=
  (Keeps.request (h.asks q)).mono fun _ _ => trivial

theorem call (h : T.Tolerates own) (f : Func C) (args : List (Value C)) :
    T.Kept (DynamicDispatch.call f args : Action C S (Value C)) :=
  h.request _

theorem modify (h : T.Tolerates own) {change : World C S → World C S}
    (hregistry : ∀ w, (change w).registry = w.registry) (hcells : ∀ w, (change w).cells = w.cells)
    (hnext : ∀ w, (change w).nextId = w.nextId) : T.Kept (Action.modify change) :=
  Keeps.modify fun w hw => h.move hw (hregistry w) (hcells w) (hnext w)

theorem minting (h : T.Tolerates own) {x : StateM Nat α} (hx : Grows x) :
    T.Kept (Action.minting x : Action C S α) :=
  h.passOn.mints.keeps_minting hx fun _ _ => trivial

/-- A standard method. -/
theorem method (h : T.Tolerates own) (m : Method) (args : List (Value C)) :
    T.Kept (m.call args : Action C S (Value C)) :=
  h.passOn.protocol _ _ fun _ _ => trivial

theorem display (h : T.Tolerates own) (v : Value C) :
    T.Kept (Generic.display v : Action C S String) :=
  h.passOn.display trivial

section Construction

mutual

theorem render (h : T.Tolerates own) :
    (t : Descriptor (Value C)) → T.Kept (t.render : Action C S String)
  | .any | .nil | .bool | .number | .text | .list | .map | .function | .task | .record _ => by
    unfold Descriptor.render
    exact .pure _
  | .literal v => by
    unfold Descriptor.render
    exact h.display v
  | .oneOf members => by
    unfold Descriptor.render
    exact .bind (h.renderAll members) fun _ => .pure _
  | .union name case none => by
    unfold Descriptor.render
    exact .pure _
  | .union name case (some fields) => by
    unfold Descriptor.render
    exact .bind (h.renderAll fields) fun _ => .pure _
  | .listOf element => by
    unfold Descriptor.render
    exact .bind (h.render element) fun _ => .pure _
  | .shape entries => by
    unfold Descriptor.render
    exact .bind (h.renderEntries entries) fun _ => .pure _

theorem renderAll (h : T.Tolerates own) : (ts : List (Descriptor (Value C))) →
    T.Kept (Descriptor.renderAll ts : Action C S (List String))
  | [] => by
    unfold Descriptor.renderAll
    exact .pure _
  | t :: ts => by
    unfold Descriptor.renderAll
    exact .bind (h.render t) fun _ => .bind (h.renderAll ts) fun _ => .pure _

theorem renderEntries (h : T.Tolerates own) : (entries : List (String × Descriptor (Value C))) →
    T.Kept (Descriptor.renderEntries entries : Action C S (List String))
  | [] => by
    unfold Descriptor.renderEntries
    exact .pure _
  | (k, t) :: entries => by
    unfold Descriptor.renderEntries
    exact .bind (h.render t) fun _ => .bind (h.renderEntries entries) fun _ => .pure _

end

theorem violations (h : T.Tolerates own) (fields : List (String × Descriptor (Value C)))
    (values : List (Value C)) :
    T.Kept (Construction.violations fields values : Action C S (List Violation)) := by
  induction fields generalizing values with
  | nil => exact .pure _
  | cons field fields ih =>
    simp only [Construction.violations]
    split
    · exact ih _
    · exact .bind (h.render _) fun _ => .bind (h.display _) fun _ => .bind (ih _) fun _ => .pure _

theorem constructRecord (h : T.Tolerates own) (type : RecordType (Value C)) (values : List (Value C)) :
    T.Kept (type.construct values : Action C S (Value C)) := by
  refine .bind (h.violations _ _) fun violations => ?_
  split
  · exact .pure _
  · exact .bind (h.render _) fun _ => .fail _

theorem constructUnion (h : T.Tolerates own) (type : UnionType (Value C)) (case : String)
    (values : List (Value C)) : T.Kept (type.construct case values : Action C S (Value C)) := by
  unfold UnionType.construct
  split
  · exact .fail _
  · refine .bind (h.violations _ _) fun violations => ?_
    split
    · exact .pure _
    · exact .bind (h.renderAll _) fun _ => .fail _

end Construction

section Calls

theorem runPipe (h : T.Tolerates own) (stages : List (Func C)) (args : List (Value C)) :
    T.Kept (Collection.runPipe stages args : Action C S (Value C)) := by
  cases stages with
  | nil => exact .pure _
  | cons f stages => exact .bind (h.call f args) fun v => .foldlM _ _ fun _ g => h.call g _

theorem select (h : T.Tolerates own) (key : Value C) (methods : List (Value C × Func C)) :
    T.Kept (Multimethod.select key methods : Action C S (Option (Func C))) := by
  induction methods with
  | nil => exact .pure _
  | cons m methods ih =>
    have hfits : T.Kept (Multimethod.fits key m.1 : Action C S Bool) := by
      unfold Multimethod.fits
      split
      · exact .pure _
      · exact .pure _
      · exact h.request _
    refine .bind hfits fun b => ?_
    cases b with
    | true => exact .pure _
    | false => exact ih

theorem multimethod (h : T.Tolerates own) (m : Multimethod C) (args : List (Value C)) :
    T.Kept (m.call args : Action C S (Value C)) := by
  refine .bind (h.call _ _) fun key => ?_
  refine .bind (.bind .world fun _ => .pure _) fun methods => ?_
  refine .bind (h.select _ _) fun selected => ?_
  cases selected with
  | some handler => exact h.call _ _
  | none =>
    cases methods.wildcard with
    | some handler => exact h.call _ _
    | none => exact .bind (h.passOn.render trivial) fun _ => .fail _

/-- What a function does keeps the terms, when the functions of the embedding program do and it is no
resolver of a cell of somebody else. -/
theorem body (h : T.Tolerates own) [Embedding C S]
    (hhost : ∀ c args, T.Kept (Embedding.body c args : Action C S (Value C))) (f : Func C)
    (args : List (Value C)) (hf : ∀ cell side, f.code = .resolver cell side → own cell) :
    T.Kept (f.body args : Action C S (Value C)) := by
  have hT := h.passOn
  unfold Callable.body
  split
  case h_1 c _ => exact hhost c args
  case h_2 family method _ => exact hT.provided family method args fun _ _ => trivial
  case h_3 => exact hT.supply _ _ fun _ _ => trivial
  case h_4 => exact hT.supply _ _ fun _ _ => trivial
  case h_5 => exact h.runPipe _ _
  case h_6 => exact h.constructRecord _ _
  case h_7 => exact h.constructUnion _ _ _
  case h_8 => exact hT.protocol _ _ fun _ _ => trivial
  case h_9 => exact h.multimethod _ _
  case h_10 c side hcode => exact .bind (h.settle _ (hf c side hcode)) fun _ => .pure _
  case h_11 =>
    unfold Collection.anyStep
    split
    · exact .pure _
    · exact .bind (h.call _ _) fun _ => .pure _
  case h_12 =>
    unfold Collection.everyStep
    split
    · exact .bind (h.call _ _) fun _ => .pure _
    · exact .pure _
  case h_13 => exact h.call _ _
  case h_14 => exact h.method .conj _
  case h_15 =>
    unfold Collection.pushStep
    split
    · exact .pure _
    · exact .fail _

end Calls

section Collections

theorem keyList (h : T.Tolerates own) (xs : Value C) :
    T.Kept (Collection.keyList xs : Action C S (List (Value C))) := by
  refine .bind (h.method .keys _) fun keys => ?_
  split
  · exact .pure _
  · exact .fail _

theorem getOrElse (h : T.Tolerates own) (key fallback xs : Value C) :
    T.Kept (Collection.getOrElse key fallback xs : Action C S (Value C)) :=
  .bind (h.method .get _) fun _ => .done _

theorem agreeOn (h : T.Tolerates own) (a b : Value C) (keys : List (Value C)) :
    T.Kept (Collection.agreeOn (fun x y => Action.request (.deepEqual x y)) a b keys :
      Action C S Bool) := by
  induction keys with
  | nil => exact .pure _
  | cons key keys ih =>
    refine .bind (h.getOrElse _ _ _) fun x => .bind (h.getOrElse _ _ _) fun y => ?_
    refine .bind (h.request (.deepEqual x y)) fun equal => ?_
    cases equal with
    | true => exact ih
    | false => exact .pure _

theorem deepEqual (h : T.Tolerates own) (a b : Value C) :
    T.Kept (Collection.deepEqual a b : Action C S Bool) := by
  have himplements : ∀ (p : Protocol) (v : Value C),
      T.Kept (implementsProtocol p v : Action C S Bool) :=
    fun _ _ => .bind .world fun _ => .pure _
  have hkeyed : T.Kept (Collection.isKeyed a b : Action C S Bool) := by
    unfold Collection.isKeyed
    split
    · exact .pure _
    · refine .bind (himplements _ _) fun keyed => ?_
      split
      · exact himplements _ _
      · exact .pure _
  unfold Collection.deepEqual
  split
  · exact .pure _
  · split
    · exact .pure _
    · refine .bind hkeyed fun keyed => ?_
      cases keyed with
      | false => exact .pure _
      | true =>
        have hsame : T.Kept (Collection.sameKeys a b : Action C S _) :=
          .bind (h.keyList a) fun _ => .bind (h.keyList b) fun _ => .pure _
        refine .bind hsame fun keys => ?_
        cases keys with
        | some keys => exact h.agreeOn a b keys
        | none => exact .pure _

theorem changed (h : T.Tolerates own) (key change subject : Value C) :
    T.Kept (Collection.changed key change subject : Action C S (Value C)) := by
  unfold Collection.changed
  split
  · refine .bind (h.method .empty _) fun empty => ?_
    exact .bind (h.getOrElse _ _ _) fun _ => h.request (.evolve _ _)
  · exact .bind (h.getOrElse _ _ _) fun _ => h.call _ _
  · exact .pure _

theorem evolve (h : T.Tolerates own) (changes subject : Value C) :
    T.Kept (Collection.evolve changes subject : Action C S (Value C)) := by
  refine .bind (h.keyList changes) fun keys => .foldlM _ _ fun acc key => ?_
  refine .bind (h.getOrElse _ _ _) fun change => ?_
  exact .bind (h.changed _ _ _) fun _ => h.method .assoc _

end Collections

section Tasks

/-- What goes on with a new cell. -/
theorem newCell_bind (h : T.Tolerates own) {f : Nat → Action C S α}
    (hf : ∀ cell, own cell → T.Kept (f cell)) : T.Kept (Recipe.newCell >>= f) :=
  Terms.Keeps.bind h.newCell hf

theorem start (h : T.Tolerates own) : (r : Recipe C) → T.Kept (r.start : Action C S (Run C))
  | .settled _ | .never | .turns _ _ | .parallel _ => .pure _
  | .procedure f => by
    refine h.newCell_bind fun cell hcell => ?_
    refine .bind (h.minting (Grows.newFunc _ _ _)) fun onFailure => ?_
    refine .bind (h.minting (Grows.newFunc _ _ _)) fun onSuccess => ?_
    refine .bind (h.call _ _).attempt fun r => ?_
    cases r with
    | ok v => exact .pure _
    | error e => exact .bind (h.settle _ hcell) fun _ => .pure _
  | .resolving outcomes => by
    refine h.newCell_bind fun cell hcell => ?_
    exact .bind (.forM fun o _ => h.settle o hcell) fun _ => .pure _
  | .future f => .bind (h.call _ _).attempt fun _ => .pure _
  | .chain first onSuccess onFailure => by
    unfold Recipe.start
    exact .bind (h.start first) fun _ => .pure _

theorem next (h : T.Tolerates own) (step : Step C) (o : Outcome (Value C)) :
    T.Kept (step.next o : Action C S (Recipe C)) := by
  cases step with
  | keep | settle | flatten => exact .pure _
  | apply f rest side onError => exact .bind (h.call _ _).attempt fun _ => .pure _
  | follow f insists => exact .bind (h.call _ _).attempt fun _ => .pure _
  | applyTo values =>
    simp only [Step.next]
    split <;> exact .pure _
  | clone => exact .bind (h.method .clone _).attempt fun _ => .pure _

theorem enter (h : T.Tolerates own) (r : Recipe C) : T.Kept (Run.enter r : Action C S (Turn C)) :=
  .bind (h.start r) fun run => h.request (.poll run)

theorem setMailbox (h : T.Tolerates own) (id : Nat) (m : Mailbox C) :
    T.Kept (DynamicDispatch.setMailbox id m : Action C S Unit) :=
  h.modify (fun _ => rfl) (fun _ => rfl) fun _ => rfl

theorem report (h : T.Tolerates own) (child : Child C) (o : Outcome (Value C)) :
    T.Kept (DynamicDispatch.report child o : Action C S Unit) :=
  .bind (.mailbox _) fun _ => h.setMailbox _ _

theorem read (h : T.Tolerates own) (box : Nat) (join : Join C) :
    T.Kept (Run.read box join : Action C S (Turn C)) := by
  refine .bind (.mailbox _) fun m => .bind (h.setMailbox _ _) fun _ => ?_
  split <;> exact .pure _

theorem poll (h : T.Tolerates own) (run : Run C) : T.Kept (run.poll : Action C S (Turn C)) := by
  induction run with
  | settled o => exact .pure _
  | never => exact .pure _
  | awaiting other =>
    refine .bind .world fun w => ?_
    split <;> exact .pure _
  | turns n next =>
    cases n with
    | zero => exact h.enter next
    | succ n => exact .pure _
  | chained first onSuccess onFailure ih =>
    unfold Run.poll
    refine .bind ih fun turn => ?_
    cases turn with
    | pending rest => exact .pure _
    | settled o => exact .bind (h.next _ _) fun r => h.enter r
  | opening children =>
    refine .bind (h.minting fun n => Nat.le_succ n) fun box => ?_
    refine .bind (h.setMailbox _ _) fun _ => ?_
    have hstart : T.Kept (Run.startChildren box children : Action C S Unit) :=
      .bind (.mapM fun r _ => h.start r) fun _ => h.modify (fun _ => rfl) (fun _ => rfl) fun _ => rfl
    exact .bind hstart fun _ => h.read _ _
  | joining box join => exact h.read _ _

theorem drive (h : T.Tolerates own) (s : Schedule C) :
    T.Kept (s.drive : Action C S (Option (Outcome (Value C)))) := by
  have htake : T.Kept (Schedule.takeStarted : Action C S (List (Child C))) :=
    .bind .world fun _ => .bind (h.modify (fun _ => rfl) (fun _ => rfl) fun _ => rfl) fun _ => .pure _
  unfold Schedule.drive
  split
  · refine .bind (h.poll _) fun turn => ?_
    cases turn with
    | settled o => exact .bind (h.report _ _) fun _ => .bind htake fun _ => h.request (.drive _)
    | pending run => exact .bind htake fun _ => h.request (.drive _)
  · refine .bind .world fun w => ?_
    split
    · cases s.main with
      | settled o => exact .bind (.pure _) fun _ => .bind htake fun _ => h.request (.drive _)
      | pending run => exact .bind (h.poll run) fun _ => .bind htake fun _ => h.request (.drive _)
    · exact .pure _

end Tasks

/-- Every request is answered within the terms, when the functions of the embedding program keep them
and no resolver of a cell of somebody else is called. -/
theorem action (h : T.Tolerates own) [Embedding C S]
    (hhost : ∀ c args, T.Kept (Embedding.body c args : Action C S (Value C))) (q : Request C)
    (hq : ∀ f args, q = .call f args → ∀ cell side, f.code = .resolver cell side → own cell) :
    T.Kept (q.action : Action C S q.Answer) := by
  cases q with
  | call f args => exact h.body hhost f args (hq f args rfl)
  | deepEqual a b => exact h.deepEqual a b
  | evolve changes subject => exact h.evolve changes subject
  | poll run => exact h.poll run
  | drive schedule => exact h.drive schedule

end Tolerates

end Terms

end DynamicDispatch
