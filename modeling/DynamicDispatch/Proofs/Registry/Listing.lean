import DynamicDispatch.Proofs.Registry.Install

/-!
# Functions listed for types

An extension lists functions for types and registers each under its own name, as it is or collecting
its arguments. Whatever is listed, what is looked up afterwards is the last function listed under the
name for the type; where none is listed it is what was looked up before. And no change to the registry
takes back an identity that was handed out.
-/

namespace DynamicDispatch

variable {C α β : Type}

/-- A function listed for a type. -/
structure Listing (C : Type) where
  key : TypeKey
  function : Func C
  /-- Whether it is registered as a function that collects its arguments. -/
  collects : Bool

namespace Listing

/-- What is registered for a listing: the function itself, or one that collects its arguments. -/
def Gives (l : Listing C) (g : Func C) : Prop :=
  if l.collects then ∃ next, g = ((curry l.function).run next).1 else g = l.function

/-- The last listing of a function of a name for a type. -/
def last? (listings : List (Listing C)) (key : TypeKey) (name : String) : Option (Listing C) :=
  listings.reverse.find? fun l => l.key = key ∧ l.function.name = name

/-- A later listing wins. -/
theorem last?_append (earlier later : List (Listing C)) (key : TypeKey) (name : String) :
    last? (earlier ++ later) key name = (last? later key name).or (last? earlier key name) := by
  simp [last?]

/-- One listing is the last of its name for its type, and no other. -/
theorem last?_singleton (l : Listing C) (key : TypeKey) (name : String) :
    last? [l] key name = if l.key = key ∧ l.function.name = name then some l else none := by
  simp only [last?, List.reverse_singleton, List.find?_singleton, decide_eq_true_eq]

/-- Where a function is listed last, it is listed. -/
theorem mem_of_last?_eq_some {listings : List (Listing C)} {key : TypeKey} {name : String}
    {l : Listing C} (h : last? listings key name = some l) : l ∈ listings ∧ l.key = key := by
  have hmem := List.mem_of_find?_eq_some h
  have hkey := List.find?_some h
  simp only [decide_eq_true_eq] at hkey
  exact ⟨List.mem_reverse.mp hmem, hkey.1⟩

/-- Nothing is listed last for a type for which nothing is listed. -/
theorem last?_eq_none {listings : List (Listing C)} {key : TypeKey}
    (h : ∀ l ∈ listings, l.key ≠ key) (name : String) : last? listings key name = none := by
  cases hlast : last? listings key name with
  | none => rfl
  | some l =>
    obtain ⟨hmem, hkey⟩ := mem_of_last?_eq_some hlast
    exact absurd hkey (h l hmem)

end Listing

namespace Registry

/-- `r'` is the registry `r` with some functions listed: the last one of a name for a type is what is
looked up, and nothing else has changed. -/
def Lists (r : Registry C) (listings : List (Listing C)) (r' : Registry C) : Prop :=
  ∀ key name, match Listing.last? listings key name with
    | some l => ∃ g, r'.lookup key name = some g ∧ l.Gives g
    | none => r'.lookup key name = r.lookup key name

/-- With nothing listed nothing has changed. -/
theorem Lists.refl (r : Registry C) : r.Lists [] r := fun _ _ => rfl

/-- What is listed in two steps is listed in one. -/
theorem Lists.trans {r r' r'' : Registry C} {earlier later : List (Listing C)}
    (h : r.Lists earlier r') (h' : r'.Lists later r'') : r.Lists (earlier ++ later) r'' := by
  intro key name
  have h := h key name
  have h' := h' key name
  rw [Listing.last?_append]
  cases hlater : Listing.last? later key name with
  | some l =>
    rw [hlater] at h'
    exact h'
  | none =>
    rw [hlater] at h'
    rw [Option.none_or]
    cases hearlier : Listing.last? earlier key name with
    | some l =>
      rw [hearlier] at h
      obtain ⟨g, hg, hgives⟩ := h
      exact ⟨g, h'.trans hg, hgives⟩
    | none =>
      rw [hearlier] at h
      exact h'.trans h

/-- Registering what a listing gives lists the function. -/
theorem lists_register {l : Listing C} {g : Func C} (hg : l.Gives g) (r : Registry C) :
    r.Lists [l] (r.register l.key l.function.name g) := by
  intro key name
  rw [Listing.last?_singleton, lookup_register]
  by_cases h : l.key = key ∧ l.function.name = name
  · rw [if_pos h, if_pos h]
    exact ⟨g, rfl, hg⟩
  · rw [if_neg h, if_neg h]

/-- Extending a type lists the functions, each of which collects its arguments. -/
theorem lists_extend (key : TypeKey) (functions : List (Func C)) (r : Registry C) (n : Nat) :
    r.Lists (functions.map (⟨key, ·, true⟩)) ((r.extend key functions).run n).1 := by
  induction functions generalizing r n with
  | nil => exact .refl r
  | cons f functions ih =>
    have hfirst : r.Lists [⟨key, f, true⟩] (r.register key f.name ((curry f).run n).1) :=
      lists_register (l := ⟨key, f, true⟩) ⟨n, rfl⟩ r
    exact hfirst.trans (ih _ _)

/-- Extending by functions as they are lists them so. -/
theorem lists_extendRaw (key : TypeKey) (functions : List (Func C)) (r : Registry C) :
    r.Lists (functions.map (⟨key, ·, false⟩)) (r.extendRaw key functions) := by
  induction functions generalizing r with
  | nil => exact .refl r
  | cons f functions ih =>
    have hfirst : r.Lists [⟨key, f, false⟩] (r.register key f.name f) :=
      lists_register (l := ⟨key, f, false⟩) rfl r
    exact hfirst.trans (ih _)

/-- Extending a type group by group lists the functions of all groups in order. -/
theorem lists_extendGroups {P : Type} (key : TypeKey) (groups : List (P × List (Func C)))
    (r : Registry C) (n : Nat) :
    r.Lists (groups.flatMap fun group => group.2.map (⟨key, ·, true⟩))
      ((groups.foldlM (fun r (group : P × List (Func C)) => extend key group.2 r) r).run n).1 := by
  induction groups generalizing r n with
  | nil => exact .refl r
  | cons group groups ih =>
    rw [List.flatMap_cons]
    exact (lists_extend key group.2 r n).trans (ih _ _)

/-- Extending types one after the other lists the functions of all of them in order. -/
theorem lists_extendRawGroups (groups : List (TypeKey × List (Func C))) (r : Registry C) :
    r.Lists (groups.flatMap fun group => group.2.map (⟨group.1, ·, false⟩))
      (groups.foldl (fun r group => extendRaw group.1 group.2 r) r) := by
  induction groups generalizing r with
  | nil => exact .refl r
  | cons group groups ih =>
    rw [List.flatMap_cons]
    exact (lists_extendRaw group.1 group.2 r).trans (ih _)

end Registry

/-- A computation that hands out identities one after the other. -/
def Grows (x : StateM Nat α) : Prop := ∀ n, n ≤ (x.run n).2

namespace Grows

theorem pure (a : α) : Grows (Pure.pure a : StateM Nat α) := fun n => Nat.le_refl n

theorem bind {x : StateM Nat α} {f : α → StateM Nat β} (hx : Grows x) (hf : ∀ a, Grows (f a)) :
    Grows (x >>= f) :=
  fun n => Nat.le_trans (hx n) (hf _ _)

theorem newFunc (name : String) (arity : Nat) (code : Code C) :
    Grows (DynamicDispatch.newFunc name arity code) := fun n => Nat.le_succ n

theorem foldlM {f : β → α → StateM Nat β} (hf : ∀ b a, Grows (f b a)) (as : List α) (b : β) :
    Grows (as.foldlM f b) := by
  induction as generalizing b with
  | nil => exact .pure b
  | cons a as ih => exact (hf b a).bind ih

theorem mapM {f : α → StateM Nat β} (hf : ∀ a, Grows (f a)) (as : List α) : Grows (as.mapM f) := by
  induction as with
  | nil => exact .pure []
  | cons a as ih =>
    rw [List.mapM_cons]
    exact (hf a).bind fun b => ih.bind fun bs => .pure (b :: bs)

theorem curry (f : Func C) : Grows (DynamicDispatch.curry f) := by
  unfold DynamicDispatch.curry curryN
  split
  · exact .pure f
  · exact .newFunc _ _ _

theorem extend (key : TypeKey) (functions : List (Func C)) (r : Registry C) :
    Grows (r.extend key functions) :=
  .foldlM (fun _ f => (Grows.curry f).bind fun _ => .pure _) functions r

theorem install (key : TypeKey) (family : Family) (r : Registry C) :
    Grows (r.install key family) := by
  exact (mapM (fun m => newFunc (C := C) m.name m.arity (.builtin family m)) family.methods).bind
    fun functions => extend key functions r

theorem installPart (part : List (TypeKey × Family)) (r : Registry C) :
    Grows (r.installPart part) := by
  unfold Registry.installPart
  exact foldlM (fun r e => install e.1 e.2 r) part r

end Grows

end DynamicDispatch
