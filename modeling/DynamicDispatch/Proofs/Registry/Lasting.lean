import DynamicDispatch.Proofs.Action.Agreement
import DynamicDispatch.Proofs.Footprint

/-!
# Registrations that last

The library never registers anything while it answers a request: only the functions of the embedding
program do. So what holds of the registry goes on to hold through every action, if these functions
keep it.
-/

namespace DynamicDispatch

variable {C S α : Type}

/-- The terms under which a property of the registry lasts. -/
def Terms.registering (K : Registry C → Prop) : Terms C S where
  asks _ := True
  answers _ _ := True
  worlds w := K w.registry
  moves _ _ := True

/-- The functions of the embedding program keep a property of the registry, apart from the calls that
they make. -/
def HostKeeps (S : Type) [Embedding C S] (K : Registry C → Prop) : Prop :=
  ∀ (c : C) (args : List (Value C)),
    (Terms.registering K).Kept (Embedding.body c args : Action C S (Value C))

variable {K : Registry C → Prop}

/-- What the library does is tolerated, to any cell. -/
theorem Terms.tolerates_registering :
    (Terms.registering (S := S) K).Tolerates fun _ => True := by
  have hmints : (Terms.registering (S := S) K).Mints := fun _ _ hw _ => ⟨trivial, hw⟩
  refine ⟨⟨⟨fun _ _ => trivial, fun _ _ => trivial, fun _ => trivial, trivial, fun _ _ => trivial,
    fun _ => trivial, fun _ => trivial⟩, hmints, fun _ _ _ => trivial, fun _ => trivial⟩,
    fun _ => trivial, fun {w w'} hw hregistry _ _ => ?_, ?_, fun {cell} o _ => ?_⟩
  · have hkept : K w'.registry := by
      rw [hregistry]
      exact hw
    exact ⟨trivial, hkept⟩
  · exact hmints.keeps_minting (fun n => Nat.le_succ n) fun _ _ => trivial
  · refine Terms.Keeps.modify fun w hw => ?_
    split <;> exact ⟨trivial, hw⟩

variable [Embedding C S]

/-- Through every action that changes registrations only within its property, the property lasts. -/
theorem HostKeeps.lasts (hhost : HostKeeps S K) {p : Action C S α}
    (hp : (Terms.registering K).Kept p) {w w' : World C S} {r : Except Error α} (hw : K w.registry)
    (h : p.Yields w r w') : K w'.registry := by
  have hupheld : (Terms.registering (S := S) K).Upheld (fun _ => false) (fun _ => True)
      fun _ _ _ => True :=
    ⟨fun _ => trivial, fun _ _ => trivial, fun _ _ _ => trivial,
      fun q _ _ => (Terms.tolerates_registering.action hhost q fun _ _ _ _ _ _ => trivial).mono
        fun _ _ => trivial, fun _ hwatch => by cases hwatch⟩
  obtain ⟨calls, hshows⟩ := (Action.yields_iff_shows fun _ => false).mp h
  exact (hupheld.shows hw (hp w hw) hshows fun _ _ => trivial).1

/-- So such actions leave worlds of which it holds. -/
theorem HostKeeps.leaves (hhost : HostKeeps S K) (watch : Func C → Bool) {p : Action C S α}
    (hp : (Terms.registering K).Kept p) :
    p.Leaves watch (fun w => K w.registry) fun _ => True :=
  fun _ hw _ _ _ h => ⟨hhost.lasts hp hw h.yields, trivial⟩

end DynamicDispatch
