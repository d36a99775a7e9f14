import DynamicDispatch.Interpreter
import DynamicDispatch.Proofs.Multimethod.Definitions

/-!
# Which handler a multimethod runs

A call asks for the key, compares it with one matcher after the other, and goes on as the first
definition whose matcher fits, as the handler of last resort, or not at all. What it asks for is listed
in order, so that no other handler runs can be read off the list. Where the verdict on a matcher is the
same whenever it is asked for, the order of definitions counts only between matchers that both fit.
-/

namespace DynamicDispatch.Multimethod

open MethodList

variable {C S : Type}

/-- The verdict on whether a matcher fits a key, what was asked for it, and the world it has left. A
key of a union is fitted by the same case of the same type, and nothing is asked; any other key by what
is deeply equal to it. -/
inductive Judges (answer : Answering C S) (key matcher : Value C) :
    World C S → Bool → List (Request C) → World C S → Prop
  | case {type : UnionType (Value C)} {index : Nat} {fields : List (Value C)} {w : World C S}
      {b : Bool} (key_eq : key = .union type index fields)
      (verdict : b = true ↔ ∃ type' fields', matcher = .union type' index fields' ∧
        type'.id = type.id) : Judges answer key matcher w b [] w
  | value {w w' : World C S} {b : Bool} (kind_ne : key.kind ≠ .union)
      (verdict : answer (.deepEqual key matcher) w = some (.ok b, w')) :
      Judges answer key matcher w b [.deepEqual key matcher] w'

/-- The matchers of some definitions are judged one after the other, and none fits. -/
inductive Rejects (answer : Answering C S) (key : Value C) :
    List (Value C × Func C) → World C S → List (Request C) → World C S → Prop
  | nil {w : World C S} : Rejects answer key [] w [] w
  | cons {matcher : Value C} {handler : Func C} {rest : List (Value C × Func C)}
      {w w' w'' : World C S} {asked asked' : List (Request C)}
      (judged : Judges answer key matcher w false asked w')
      (rejected : Rejects answer key rest w' asked' w'') :
      Rejects answer key ((matcher, handler) :: rest) w (asked ++ asked') w''

/-- How a call goes on: it runs the chosen handler, or fails and shows the arguments. -/
def goOn (args : List (Value C)) : Option (Func C × List (Value C)) → Action C S (Value C)
  | some (handler, given) => DynamicDispatch.call handler given
  | none => do .fail (.noMatchingHandler (← Generic.render (.list args)))

/-- A union key is fitted by the same case of the same type, which is known at once. -/
theorem fits_union {type : UnionType (Value C)} {index : Nat} {fields : List (Value C)}
    {matcher : Value C} {b : Bool} (verdict : b = true ↔
      ∃ type' fields', matcher = .union type' index fields' ∧ type'.id = type.id) :
    (fits (.union type index fields) matcher : Action C S Bool) = .done (.ok b) := by
  cases matcher with
  | union type' index' fields' =>
    change Action.done (.ok (type.id == type'.id && index == index')) = _
    congr 2
    rw [Bool.eq_iff_iff, verdict, Bool.and_eq_true, beq_iff_eq, beq_iff_eq]
    constructor
    · rintro ⟨hid, rfl⟩
      exact ⟨type', fields', rfl, hid.symm⟩
    · rintro ⟨_, _, ⟨rfl, rfl, rfl⟩, hid⟩
      exact ⟨hid.symm, rfl⟩
  | _ =>
    have hfalse : b = false := by simpa using verdict
    rw [hfalse]
    rfl

/-- Any other key is compared with the matcher. -/
theorem fits_of_kind_ne {key : Value C} (h : key.kind ≠ .union) (matcher : Value C) :
    (fits key matcher : Action C S Bool) = Action.request (.deepEqual key matcher) := by
  cases key with
  | union _ _ _ => exact absurd rfl h
  | _ => rfl

section Steps

variable {answer : Answering C S} {key : Value C}

/-- In worlds of some kind, which comparing keeps, the verdict on a matcher is always the same. -/
def Steady (answer : Answering C S) (key : Value C) (verdict : Value C → Bool)
    (kind : World C S → Prop) : Prop :=
  ∀ {matcher : Value C} {w w' : World C S} {b : Bool} {asked : List (Request C)}, kind w →
    Judges answer key matcher w b asked w' → b = verdict matcher ∧ kind w'

variable {verdict : Value C → Bool} {kind : World C S → Prop}

/-- Among what has been rejected nothing fits. -/
theorem Rejects.find?_eq_none {definitions : List (Value C × Func C)} {w w' : World C S}
    {asked : List (Request C)} (h : Rejects answer key definitions w asked w')
    (hsteady : Steady answer key verdict kind) (hw : kind w) :
    definitions.find? (verdict ·.1) = none ∧ kind w' := by
  induction h with
  | nil => exact ⟨rfl, hw⟩
  | cons judged _ ih =>
    obtain ⟨hfirst, hw'⟩ := hsteady hw judged
    rw [List.find?_cons, ← hfirst]
    exact ih hw'

end Steps

/-- A function that gives back its argument. -/
def echo (id : Nat) : Func Empty := ⟨id, "echo", 1, .builtin .text .shallowClone⟩

end DynamicDispatch.Multimethod
