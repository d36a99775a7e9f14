import DynamicDispatch.Proofs.Footprint

/-!
# Leaving cells alone

A run that others settle has a cell. Whatever the library does, it writes to the cell of a task that
was started before only through the two resolvers of the run: the operations that make, run and join
tasks write to cells that they have made themselves, and nothing else writes to cells. This is shown
for every request, given that the functions of the embedding program write to cells through resolvers
only.
-/

namespace DynamicDispatch

variable {C S α β : Type}

/-- The terms under which a cell that is in use is left alone. -/
def Terms.sparing (cell : Nat) : Terms C S where
  asks _ := True
  answers _ _ := True
  worlds w := cell < w.nextId
  moves w w' := w'.cells.get? cell = w.cells.get? cell

/-- An action leaves a cell that is in use alone, apart from the calls that it makes. -/
def Action.Spares (cell : Nat) (p : Action C S α) : Prop :=
  (Terms.sparing cell).Keeps (fun _ => True) p

/-- The functions of the embedding program leave the cells in use alone, apart from the calls that they
make. -/
def HostSpares (C S : Type) [Embedding C S] : Prop :=
  ∀ (cell : Nat) (c : C) (args : List (Value C)),
    Action.Spares cell (Embedding.body c args : Action C S (Value C))

/-- A function settles a cell. -/
def resolves (cell : Nat) (f : Func C) : Bool :=
  match f.code with
  | .resolver c _ => c == cell
  | _ => false

/-- What the library does is tolerated: the cells that it makes are other ones. -/
theorem Terms.tolerates_sparing (cell : Nat) :
    (Terms.sparing (C := C) (S := S) cell).Tolerates (· ≠ cell) := by
  have hmints : (Terms.sparing (C := C) (S := S) cell).Mints :=
    fun _ _ hw hn => ⟨rfl, Nat.lt_of_lt_of_le hw hn⟩
  refine ⟨⟨⟨fun _ _ => trivial, fun _ _ => trivial, fun _ => trivial, trivial, fun _ _ => trivial,
    fun _ => trivial, fun _ => trivial⟩, hmints, fun _ _ _ => trivial, fun _ => trivial⟩,
    fun _ => trivial, fun {w w'} hw _ hcells hnext => ?_, ?_, fun {other} o hother => ?_⟩
  · exact ⟨congrArg (Table.get? · cell) hcells, Nat.lt_of_lt_of_eq hw hnext.symm⟩
  · exact hmints.keeps_minting (fun n => Nat.le_succ n) fun _ hw => Nat.ne_of_gt hw
  · refine Terms.Keeps.modify fun w hw => ?_
    split
    · exact ⟨rfl, hw⟩
    · exact ⟨by simp [Terms.sparing, Table.get?_insert, hother], hw⟩

namespace Action.Spares

variable {cell : Nat}

theorem pure (a : α) : Spares cell (Pure.pure a : Action C S α) := Terms.Kept.pure a

theorem fail (e : Error) : Spares cell (Action.fail e : Action C S α) := Terms.Kept.fail e

theorem bind {p : Action C S α} {f : α → Action C S β} (hp : Spares cell p)
    (hf : ∀ a, Spares cell (f a)) : Spares cell (p >>= f) :=
  Terms.Kept.bind hp hf

theorem call (f : Func C) (args : List (Value C)) :
    Spares cell (DynamicDispatch.call f args : Action C S (Value C)) :=
  (Terms.tolerates_sparing cell).call f args

end Action.Spares

/-- Every request is answered without touching the cell, apart from the calls that settle it, when the
functions of the embedding program do not touch it. -/
theorem spares_action [Embedding C S] {cell : Nat} (hhost : HostSpares C S) (q : Request C)
    (hq : ∀ f args, q = .call f args → resolves cell f = false) :
    Action.Spares cell (q.action : Action C S q.Answer) := by
  refine (Terms.tolerates_sparing cell).action (hhost cell) q fun f args hcall other side hcode => ?_
  have hother := hq f args hcall
  simpa [resolves, hcode] using hother

end DynamicDispatch
