import DynamicDispatch.Proofs.Action.Ending
import DynamicDispatch.Proofs.Dispatch
import DynamicDispatch.Proofs.Methods.Argument
import DynamicDispatch.Proofs.Registry.Lookup

/-!
# Renderings that end

A value is rendered by the function that the registry has for it, which renders the values inside by
asking the registry again. A family's own rendering goes no further than that, so that a rendering ends
wherever every function that was registered in the place of such a rendering ends.
-/

namespace DynamicDispatch

variable {C S : Type}

namespace Value

/-- The values inside a value are smaller than it. -/
theorem sizeOf_lt_of_mem_parts {v x : Value C} (h : x ∈ v.parts) : sizeOf x < sizeOf v := by
  cases v with
  | list items =>
    have := List.sizeOf_lt_of_mem (show x ∈ items from h)
    simp only [list.sizeOf_spec]
    omega
  | map entries =>
    obtain ⟨e, he, rfl⟩ := List.mem_map.mp h
    have := List.sizeOf_lt_of_mem he
    have : sizeOf e = 1 + sizeOf e.1 + sizeOf e.2 := rfl
    simp only [map.sizeOf_spec]
    omega
  | record type fields =>
    have := List.sizeOf_lt_of_mem (show x ∈ fields from h)
    simp only [record.sizeOf_spec]
    omega
  | union type index fields =>
    have := List.sizeOf_lt_of_mem (show x ∈ fields from h)
    simp only [union.sizeOf_spec]
    omega
  | _ => cases h

/-- What holds of a value as soon as it holds of the values inside holds of every value. -/
theorem partsInduction {motive : Value C → Prop} (h : ∀ v, (∀ x ∈ v.parts, motive x) → motive v)
    (v : Value C) : motive v :=
  h v fun x hx =>
    have := sizeOf_lt_of_mem_parts hx
    partsInduction h x
termination_by sizeOf v

/-- One value stands inside another one, at some depth or as the whole of it. -/
inductive Inside : Value C → Value C → Prop
  | whole (v : Value C) : Inside v v
  | part {x y v : Value C} (hy : y ∈ v.parts) (hx : Inside x y) : Inside x v

end Value

open DynamicDispatch.Action

variable [Embedding C S] {I : World C S → Prop} {fails : Prop} {P : Value C → Prop}

/-- A value's family renders it when the values inside are rendered, and gives a text. -/
theorem ends_render_family {v : Value C}
    (h : ∀ x ∈ v.parts, (Generic.render x : Action C S String).Ends I fails fun _ => True) :
    (v.family.implementation .render [v] : Action C S (Value C)).Ends I fails
      fun r => ∃ s, r = .text s := by
  cases v with
  | list items =>
    change Ends I fails (if items.isEmpty then _ else _) _
    split
    · exact .pure ⟨_, rfl⟩
    · exact (Ends.mapM h).bind fun _ _ => .pure ⟨_, rfl⟩
  | map entries =>
    change Ends I fails (if entries.isEmpty then _ else _) _
    split
    · exact .pure ⟨_, rfl⟩
    · refine (Ends.mapM fun e he => ?_).bind fun _ _ => .pure ⟨_, rfl⟩
      exact (h e.2 (List.mem_map_of_mem he)).bind fun _ _ => .pure trivial
  | record type fields => exact (Ends.mapM h).bind fun _ _ => .pure ⟨_, rfl⟩
  | union type index fields => exact (Ends.mapM h).bind fun _ _ => .pure ⟨_, rfl⟩
  | _ => exact .pure ⟨_, rfl⟩

/-- What is needed for values of which `P` holds to be rendered in the worlds of `I`: the function that
is registered for such a value's rendering is the one of its family, or ends with a text. An error may
occur, and may take the place of the function or of its text, where renderings may fail. -/
structure Rendering (I : World C S → Prop) (fails : Prop) (P : Value C → Prop) : Prop where
  parts : ∀ {v x}, P v → x ∈ v.parts → P x
  shows : ∀ {w v f}, I w → P v → w.registry.resolve v Method.render.name = some f →
    (∃ id, f = ⟨id, Method.render.name, Method.render.arity, .builtin v.family .render⟩) ∨
      (call f [v] : Action C S (Value C)).Ends I fails fun r => (∃ s, r = .text s) ∨ fails
  missing : ∀ {w v}, I w → P v → w.registry.resolve v Method.render.name = none → fails

namespace Rendering

/-- Such values are rendered. -/
theorem render (h : Rendering I fails P) {v : Value C} (hv : P v) :
    (Generic.render v : Action C S String).Ends I fails fun _ => True := by
  induction v using Value.partsInduction with
  | h v ih =>
    have hfamily := ends_render_family fun x hx => ih x hx (h.parts hv hx)
    have hshow : (Method.render.call [v] : Action C S (Value C)).Ends I fails
        fun r => (∃ s, r = .text s) ∨ fails := by
      rw [Method.call, Protocol.call_eq (Method.method?_protocol .render)]
      refine .read fun w hw => ?_
      cases hresolve : w.registry.resolve v Method.render.name with
      | none =>
        simp only [lastArgument, List.getLast?_singleton, Option.getD_some, hresolve]
        exact .fail (h.missing hw hv hresolve) _
      | some f =>
        simp only [lastArgument, List.getLast?_singleton, Option.getD_some, hresolve]
        rcases h.shows hw hv hresolve with ⟨id, rfl⟩ | hends
        · exact .call (hfamily.mono fun _ => Or.inl)
        · exact hends
    refine hshow.bind fun r hr => ?_
    split
    · exact .pure trivial
    · rename_i hother
      refine .fail ?_ _
      rcases hr with ⟨s, rfl⟩ | hfails
      · exact absurd rfl (hother s)
      · exact hfails

/-- Such values are displayed, always as some text. -/
theorem display (h : Rendering I fails P) {v : Value C} (hv : P v) :
    (Generic.display v : Action C S String).Ends I False fun _ => True := by
  refine (h.render hv).attempt.bind fun r _ => ?_
  split <;> exact .pure trivial

end Rendering

/-- A value is never displayed as an error. -/
theorem Action.Shows.of_display {watch : Func C → Bool} {v : Value C}
    {w w' : World C S} {calls : List (SeenCall C)} {r : Except Error String}
    (h : (Generic.display v).Shows watch w calls r w') : ∃ text, r = .ok text := by
  rcases shows_bind_iff.mp h with ⟨_, rendered, _, _, -, hdisplayed, -⟩ | ⟨e, herror, -⟩
  · cases rendered with
    | ok s => exact ⟨_, (shows_pure_iff.mp hdisplayed).2.1⟩
    | error e => exact ⟨_, (shows_pure_iff.mp hdisplayed).2.1⟩
  · obtain ⟨r', hr', -⟩ := shows_attempt_iff.mp herror
    cases hr'

/-- In a registry a value is rendered by its own family, at every depth. -/
def Registry.RendersByFamily (r : Registry C) (v : Value C) : Prop :=
  ∀ x : Value C, x.Inside v → r.Provides x.typeKey x.family .render

/-- In the standard registry values of no declared type are rendered by their families. -/
theorem Registry.Standard.rendersByFamily {r : Registry C} (hr : r.Standard) {v : Value C}
    (h : ∀ x : Value C, x.Inside v → x.kind = .plain) : r.RendersByFamily v := by
  intro x hx
  refine hr.provides_family (h x hx) ?_
  cases x <;> exact List.mem_cons_self

/-- Where values are rendered by their families, rendering them leaves the world as it is and never
fails. -/
theorem rendering_byFamily (w : World C S) :
    Rendering (fun u : World C S => u = w) False w.registry.RendersByFamily := by
  have hresolve : ∀ {x : Value C}, w.registry.RendersByFamily x →
      ∃ id, w.registry.resolve x Method.render.name =
        some ⟨id, Method.render.name, Method.render.arity, .builtin x.family .render⟩ := by
    intro x hx
    obtain ⟨id, next, hlookup⟩ := hx x (.whole x)
    refine ⟨id, ?_⟩
    rw [Registry.resolve, hlookup]
    rfl
  refine ⟨fun hv hx y hy => hv y (.part hx hy), fun {u x f} hu hx hf => ?_, fun {u x} hu hx hnone => ?_⟩
  · obtain ⟨id, hid⟩ := hresolve hx
    rw [hu, hid] at hf
    exact Or.inl ⟨id, (Option.some.inj hf).symm⟩
  · obtain ⟨id, hid⟩ := hresolve hx
    rw [hu, hid] at hnone
    cases hnone

end DynamicDispatch
