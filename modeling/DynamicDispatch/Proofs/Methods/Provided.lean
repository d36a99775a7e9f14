import DynamicDispatch.Proofs.Methods.Argument

/-!
# What the families' methods give

Every implementation of a standard method passes on a hereditary property of values: given arguments
that have it, it calls functions on values that have it only and gives a value that has it. This is
shown for one family after the other, by the methods that it provides.
-/

namespace DynamicDispatch

variable {C S : Type}

/-- An implementation that passes a property of values on. -/
def Terms.PassedOnBy (T : Terms C S) (φ : Value C → Prop) (implementation : Implementation C S) :
    Prop :=
  ∀ args, (∀ v ∈ args, φ v) → T.Keeps φ (implementation args)

namespace Terms.PassOn

variable {T : Terms C S} {φ : Value C → Prop} {args : List (Value C)}

section Subjects

theorem listSubject (h : T.PassOn φ) (m : Method) (hargs : ∀ v ∈ args, φ v) :
    T.Keeps (fun xs => ∀ x ∈ xs, φ x) (Methods.listSubject m args) := by
  unfold Methods.listSubject
  split
  · rename_i xs hlast
    exact .pure (h.hereditary.list_iff.mp (hargs _ (List.mem_of_getLast? hlast)))
  · exact .fail _

theorem textSubject (m : Method) : T.Keeps (fun _ => True) (Methods.textSubject m args) := by
  unfold Methods.textSubject
  split
  · exact .pure trivial
  · exact .fail _

theorem mapSubject (h : T.PassOn φ) (m : Method) (hargs : ∀ v ∈ args, φ v) :
    T.Keeps (fun entries => ∀ e ∈ entries, φ e.2) (Methods.mapSubject m args) := by
  unfold Methods.mapSubject
  split
  · rename_i entries hlast
    exact .pure (h.hereditary.map_iff.mp (hargs _ (List.mem_of_getLast? hlast)))
  · exact .fail _

theorem taskSubject (m : Method) : T.Keeps (fun _ => True) (Methods.taskSubject m args) := by
  unfold Methods.taskSubject
  split
  · exact .pure trivial
  · exact .fail _

theorem functionAt (m : Method) (i : Nat) :
    T.Keeps (fun _ => True) (Methods.functionAt m args i) := by
  unfold Methods.functionAt
  split
  · exact .pure trivial
  · exact .fail _

theorem recordSubject (h : T.PassOn φ) (m : Method) (hargs : ∀ v ∈ args, φ v) :
    T.Keeps (fun subject => ∀ x ∈ subject.2, φ x) (Methods.recordSubject m args) := by
  unfold Methods.recordSubject
  split
  · rename_i type fields hlast
    exact .pure fun x hx => h.hereditary.parts (hargs _ (List.mem_of_getLast? hlast)) hx
  · exact .fail _

theorem instanceOf (h : T.PassOn φ) (type : UnionType (Value C)) (m : Method) {v : Value C}
    (hv : φ v) : T.Keeps (fun subject => ∀ x ∈ subject.2, φ x) (Methods.instanceOf type m v) := by
  cases v with
  | union t index fields =>
    simp only [Methods.instanceOf]
    split
    · exact .pure fun x hx => h.hereditary.parts hv hx
    · exact .fail _
  | _ => exact .fail _

theorem fold (h : T.PassOn φ) (f : Func C) {initial : Value C} {xs : List (Value C)}
    (hinitial : φ initial) (hxs : ∀ x ∈ xs, φ x) : T.Keeps φ (Methods.fold f initial xs) :=
  .foldlM hinitial fun acc x hacc hx => h.call f (by simp [hacc, hxs x hx])

theorem taskValue (h : T.PassOn φ) (r : Recipe C) : T.Keeps φ (Methods.taskValue r) := by
  have hnew : T.Keeps (fun _ => True) (Action.minting (newTask r)) :=
    h.mints.keeps_minting (fun n => Nat.le_succ n) fun _ _ => trivial
  exact hnew.bind fun t _ => .pure (h.hereditary.atom rfl rfl)

end Subjects

section Families

theorem scalar (h : T.PassOn φ) (render : Value C → String) (m : Method) :
    T.PassedOnBy φ (Methods.scalar render m) := by
  intro args hargs
  cases m with
  | render => exact .pure (h.hereditary.atom rfl rfl)
  | clone | shallowClone => exact .pure (h.hereditary.lastArgument hargs)
  | _ => exact .fail _

theorem list (h : T.PassOn φ) (m : Method) : T.PassedOnBy φ (Methods.list m) := by
  intro args hargs
  have hφ := h.hereditary
  cases m with
  | render =>
    refine (h.listSubject _ hargs).bind fun xs hxs => ?_
    split
    · exact .pure (hφ.atom rfl rfl)
    · exact (h.renderAll hxs).bind fun _ _ => .pure (hφ.atom rfl rfl)
  | clone =>
    refine (h.listSubject _ hargs).bind fun xs hxs => ?_
    refine (Keeps.mapM fun x hx => h.method₁ .clone (hxs x hx)).bind fun ys hys => ?_
    exact .pure (hφ.list_iff.mpr hys)
  | shallowClone => exact .pure (hφ.lastArgument hargs)
  | count => exact (h.listSubject _ hargs).bind fun _ _ => .pure (hφ.atom rfl rfl)
  | get =>
    refine (h.listSubject _ hargs).bind fun xs hxs => .pure (hφ.maybe_of (hφ.getD fun v hv => ?_))
    obtain ⟨i, -, hi⟩ := Option.bind_eq_some_iff.mp hv
    exact hxs v (List.mem_of_getElem? hi)
  | first =>
    exact (h.listSubject _ hargs).bind fun xs hxs => .pure (hφ.maybe_of (hφ.headD hxs))
  | rest =>
    refine (h.listSubject _ hargs).bind fun xs hxs => .pure (hφ.list_iff.mpr fun x hx => ?_)
    exact hxs x (List.mem_of_mem_drop hx)
  | conj =>
    refine (h.listSubject _ hargs).bind fun xs hxs => .pure (hφ.list_iff.mpr ?_)
    exact List.forall_mem_append.mpr ⟨hxs, List.forall_mem_singleton.mpr (hφ.argument hargs 0)⟩
  | iterator =>
    exact (h.listSubject _ hargs).bind fun xs hxs => .pure (hφ.list_iff.mpr hxs)
  | keys =>
    refine (h.listSubject _ hargs).bind fun xs _ => .pure (hφ.list_iff.mpr fun x hx => ?_)
    obtain ⟨i, -, rfl⟩ := List.mem_map.mp hx
    exact hφ.atom rfl rfl
  | assoc =>
    refine (h.listSubject _ hargs).bind fun xs hxs => ?_
    split
    · refine .pure (hφ.list_iff.mpr fun x hx => ?_)
      rcases List.mem_or_eq_of_mem_set hx with hx | rfl
      · exact hxs x hx
      · exact hφ.argument hargs 1
    · exact .pure (hφ.list_iff.mpr hxs)
  | dissoc =>
    refine (h.listSubject _ hargs).bind fun xs hxs => ?_
    split
    · exact .pure (hφ.list_iff.mpr fun x hx => hxs x (List.mem_of_mem_eraseIdx hx))
    · exact .pure (hφ.list_iff.mpr hxs)
  | empty => exact .pure (hφ.list_iff.mpr fun x hx => absurd hx List.not_mem_nil)
  | append =>
    refine (h.listSubject _ hargs).bind fun xs hxs => .pure (hφ.list_iff.mpr ?_)
    have hadded := hφ.argument hargs 0
    unfold Methods.appended
    split
    · rename_i ys heq
      exact List.forall_mem_append.mpr ⟨hxs, hφ.list_iff.mp (heq ▸ hadded)⟩
    · exact List.forall_mem_append.mpr ⟨hxs, List.forall_mem_singleton.mpr hadded⟩
  | foldl =>
    refine (functionAt _ 0).bind fun f _ => (h.listSubject _ hargs).bind fun xs hxs => ?_
    exact h.fold f (hφ.argument hargs 1) hxs
  | foldr =>
    refine (functionAt _ 0).bind fun f _ => (h.listSubject _ hargs).bind fun xs hxs => ?_
    exact h.fold f (hφ.argument hargs 1) fun x hx => hxs x (List.mem_reverse.mp hx)
  | map =>
    refine (functionAt _ 0).bind fun f _ => (h.listSubject _ hargs).bind fun xs hxs => ?_
    refine (Keeps.mapM fun x hx => h.call f (List.forall_mem_singleton.mpr (hxs x hx))).bind ?_
    exact fun ys hys => .pure (hφ.list_iff.mpr hys)
  | of => exact .pure (hφ.list_iff.mpr (List.forall_mem_singleton.mpr (hφ.argument hargs 0)))
  | flatten =>
    refine (h.listSubject _ hargs).bind fun xs hxs => .pure (hφ.list_iff.mpr fun x hx => ?_)
    obtain ⟨y, hy, hx⟩ := List.mem_flatMap.mp hx
    have hy := hxs y hy
    cases y with
    | list inner => exact hφ.list_iff.mp hy x hx
    | _ => exact List.mem_singleton.mp hx ▸ hy
  | ap =>
    refine (h.listSubject _ hargs).bind fun functions _ => ?_
    have hvalues := hφ.argument hargs 0
    have hall : T.Keeps (fun yss => ∀ ys ∈ yss, ∀ y ∈ ys, φ y)
        (functions.mapM (Methods.applyToAll (DynamicDispatch.argument args 0))) := by
      refine .mapM fun f _ => ?_
      unfold Methods.applyToAll
      split
      · refine (h.map _ hvalues).bind fun ys hys => ?_
        split
        · exact .pure (hφ.list_iff.mp hys)
        · exact .pure (List.forall_mem_singleton.mpr hys)
      · exact .fail _
    refine hall.bind fun yss hyss => .pure (hφ.list_iff.mpr fun y hy => ?_)
    obtain ⟨ys, hys, hy⟩ := List.mem_flatten.mp hy
    exact hyss ys hys y hy
  | _ => exact .fail _

/-- What is joined to a text is rendered. -/
theorem joinText (h : T.PassOn φ) (m : Method) : T.PassedOnBy φ (Methods.joinText m) := by
  intro args hargs
  refine (textSubject m).bind fun cs _ => ?_
  refine (h.textOf (h.hereditary.argument hargs 0)).bind fun _ _ => ?_
  exact .pure (h.hereditary.atom rfl rfl)

theorem text (h : T.PassOn φ) (m : Method) : T.PassedOnBy φ (Methods.text m) := by
  intro args hargs
  have hφ := h.hereditary
  have hchars : ∀ {cs : List Char}, ∀ x ∈ cs.map Methods.charValue, φ x := by
    intro cs x hx
    obtain ⟨c, -, rfl⟩ := List.mem_map.mp hx
    exact hφ.atom rfl rfl
  cases m with
  | render | count | rest => exact (textSubject _).bind fun _ _ => .pure (hφ.atom rfl rfl)
  | clone | shallowClone | flatten => exact .pure (hφ.lastArgument hargs)
  | get | first =>
    refine (textSubject _).bind fun cs _ => .pure (hφ.maybe_of (hφ.getD fun v hv => ?_))
    obtain ⟨c, -, rfl⟩ := Option.map_eq_some_iff.mp hv
    exact hφ.atom rfl rfl
  | conj => exact h.joinText .conj args hargs
  | append => exact h.joinText .append args hargs
  | iterator => exact (textSubject _).bind fun _ _ => .pure (hφ.list_iff.mpr hchars)
  | keys =>
    refine (textSubject _).bind fun xs _ => .pure (hφ.list_iff.mpr fun x hx => ?_)
    obtain ⟨i, -, rfl⟩ := List.mem_map.mp hx
    exact hφ.atom rfl rfl
  | assoc =>
    refine (textSubject _).bind fun cs _ => ?_
    refine (h.textOf (hφ.argument hargs 1)).bind fun _ _ => ?_
    split <;> exact .pure (hφ.atom rfl rfl)
  | dissoc =>
    refine (textSubject _).bind fun cs _ => ?_
    split <;> exact .pure (hφ.atom rfl rfl)
  | empty => exact .pure (hφ.atom rfl rfl)
  | foldl =>
    refine (functionAt _ 0).bind fun f _ => (textSubject _).bind fun cs _ => ?_
    exact h.fold f (hφ.argument hargs 1) hchars
  | foldr =>
    refine (functionAt _ 0).bind fun f _ => (textSubject _).bind fun cs _ => ?_
    exact h.fold f (hφ.argument hargs 1) fun x hx => hchars x (List.mem_reverse.mp hx)
  | map =>
    refine (functionAt _ 0).bind fun f _ => (textSubject _).bind fun cs _ => ?_
    have hparts : T.Keeps (fun _ => True)
        (cs.mapM fun c => do Generic.textOf (← DynamicDispatch.call f [Methods.charValue c])) := by
      refine .mapM_any fun c _ => ?_
      exact (h.call f (List.forall_mem_singleton.mpr (hφ.atom rfl rfl))).bind fun _ hv => h.textOf hv
    exact hparts.bind fun _ _ => .pure (hφ.atom rfl rfl)
  | of => exact (h.textOf (hφ.argument hargs 0)).bind fun _ _ => .pure (hφ.atom rfl rfl)
  | _ => exact .fail _

/-- Joining the entries of a map with a pair or with another map. -/
theorem merge (h : T.PassOn φ) (m : Method) {entries : List (String × Value C)} {v : Value C}
    (hentries : ∀ e ∈ entries, φ e.2) (hv : φ v) : T.Keeps φ (Methods.merge m entries v) := by
  have hφ := h.hereditary
  unfold Methods.merge
  split
  · rename_i key value
    have hkey : T.Keeps (fun _ => True) (Methods.lift (Methods.mapKey m key)) :=
      .done fun _ _ => trivial
    refine hkey.bind fun name _ => .pure (hφ.map_iff.mpr (Entries.forall_insert ?_ hentries))
    exact hφ.list_iff.mp hv value (by simp)
  · exact .pure (hφ.map_iff.mpr (Entries.forall_union (hφ.map_iff.mp hv) hentries))
  · exact .fail _

theorem mapMethod (h : T.PassOn φ) (m : Method) : T.PassedOnBy φ (Methods.map m) := by
  intro args hargs
  have hφ := h.hereditary
  have hkey : ∀ key, T.Keeps (fun _ => True) (Methods.lift (Methods.mapKey (C := C) m key)) :=
    fun _ => .done fun _ _ => trivial
  cases m with
  | render =>
    refine (h.mapSubject _ hargs).bind fun entries hentries => ?_
    split
    · exact .pure (hφ.atom rfl rfl)
    · refine (Keeps.mapM_any fun e he => ?_).bind fun _ _ => .pure (hφ.atom rfl rfl)
      exact (h.render (hentries e he)).bind fun _ _ => .pure trivial
  | clone =>
    refine (h.mapSubject _ hargs).bind fun entries hentries => ?_
    have hcopy : ∀ e ∈ entries, T.Keeps (fun copy : String × Value C => φ copy.2)
        (do return (e.1, ← Generic.clone e.2)) :=
      fun e he => (h.method₁ .clone (hentries e he)).bind fun _ hv => .pure hv
    exact (Keeps.mapM hcopy).bind fun _ hcopies => .pure (hφ.map_iff.mpr hcopies)
  | shallowClone => exact .pure (hφ.lastArgument hargs)
  | count => exact (h.mapSubject _ hargs).bind fun _ _ => .pure (hφ.atom rfl rfl)
  | keys =>
    refine (h.mapSubject _ hargs).bind fun entries _ => .pure (hφ.list_iff.mpr fun x hx => ?_)
    obtain ⟨e, -, rfl⟩ := List.mem_map.mp hx
    exact hφ.atom rfl rfl
  | get =>
    refine (h.mapSubject _ hargs).bind fun entries hentries => ?_
    split
    · refine .pure (hφ.maybe_of (hφ.getD fun v hv => ?_))
      exact hentries _ (Entries.mem_of_find?_eq_some hv)
    · exact .pure hφ.none
  | assoc =>
    refine (h.mapSubject _ hargs).bind fun entries hentries => (hkey _).bind fun key _ => ?_
    exact .pure (hφ.map_iff.mpr (Entries.forall_insert (hφ.argument hargs 1) hentries))
  | dissoc =>
    refine (h.mapSubject _ hargs).bind fun entries hentries => (hkey _).bind fun key _ => ?_
    exact .pure (hφ.map_iff.mpr fun e he => hentries e (List.mem_of_mem_filter he))
  | first =>
    refine (h.mapSubject _ hargs).bind fun entries hentries => ?_
    refine .pure (hφ.maybe_of (hφ.getD fun v hv => ?_))
    obtain ⟨e, he, rfl⟩ := Option.map_eq_some_iff.mp hv
    exact hentries e (List.mem_of_head? he)
  | rest =>
    refine (h.mapSubject _ hargs).bind fun entries hentries => .pure (hφ.map_iff.mpr fun e he => ?_)
    exact hentries e (List.mem_of_mem_drop he)
  | conj =>
    refine (h.mapSubject _ hargs).bind fun entries hentries => ?_
    exact h.merge .conj hentries (hφ.argument hargs 0)
  | append =>
    refine (h.mapSubject _ hargs).bind fun entries hentries => ?_
    exact h.merge .append hentries (hφ.argument hargs 0)
  | empty => exact .pure (hφ.map_iff.mpr fun e he => absurd he List.not_mem_nil)
  | foldl =>
    refine (functionAt _ 0).bind fun f _ => (h.mapSubject _ hargs).bind fun entries hentries => ?_
    exact h.fold f (hφ.argument hargs 1) (List.forall_mem_map.mpr hentries)
  | foldr =>
    refine (functionAt _ 0).bind fun f _ => (h.mapSubject _ hargs).bind fun entries hentries => ?_
    refine h.fold f (hφ.argument hargs 1) fun x hx => ?_
    exact List.forall_mem_map.mpr hentries x (List.mem_reverse.mp hx)
  | map =>
    refine (functionAt _ 0).bind fun f _ => (h.mapSubject _ hargs).bind fun entries hentries => ?_
    have hentry : ∀ e ∈ entries, T.Keeps (fun mapped : String × Value C => φ mapped.2)
        (do return (e.1, ← DynamicDispatch.call f [e.2])) :=
      fun e he => (h.call f (List.forall_mem_singleton.mpr (hentries e he))).bind fun _ hv => .pure hv
    exact (Keeps.mapM hentry).bind fun _ hmapped => .pure (hφ.map_iff.mpr hmapped)
  | _ => exact .fail _

theorem task (h : T.PassOn φ) (m : Method) : T.PassedOnBy φ (Methods.task m) := by
  intro args hargs
  have hφ := h.hereditary
  cases m with
  | render => exact .pure (hφ.atom rfl rfl)
  | clone | flatten => exact (taskSubject _).bind fun _ _ => h.taskValue _
  | shallowClone => exact .pure (hφ.lastArgument hargs)
  | foldl | foldr | map =>
    exact (functionAt _ 0).bind fun _ _ => (taskSubject _).bind fun _ _ => h.taskValue _
  | bimap =>
    refine (functionAt _ 0).bind fun _ _ => (functionAt _ 1).bind fun _ _ => ?_
    exact (taskSubject _).bind fun _ _ => h.taskValue _
  | of => exact h.taskValue _
  | ap =>
    simp only [Methods.task]
    split
    · exact (taskSubject _).bind fun _ _ => h.taskValue _
    · exact .fail _
  | _ => exact .fail _

theorem record (h : T.PassOn φ) (m : Method) : T.PassedOnBy φ (Methods.record m) := by
  intro args hargs
  have hφ := h.hereditary
  cases m with
  | render =>
    refine (h.recordSubject _ hargs).bind fun subject hfields => ?_
    exact (h.renderAll hfields).bind fun _ _ => .pure (hφ.atom rfl rfl)
  | clone | shallowClone => exact .pure (hφ.argument hargs 0)
  | count => exact (h.recordSubject _ hargs).bind fun _ _ => .pure (hφ.atom rfl rfl)
  | get =>
    refine (h.recordSubject _ hargs).bind fun subject hfields => ?_
    simp only
    split
    · refine .pure (hφ.maybe_of (hφ.getD fun v hv => ?_))
      obtain ⟨i, -, hi⟩ := Option.bind_eq_some_iff.mp hv
      exact hfields v (List.mem_of_getElem? hi)
    · exact .pure hφ.none
  | first =>
    exact (h.recordSubject _ hargs).bind fun _ hfields => .pure (hφ.maybe_of (hφ.headD hfields))
  | rest | keys =>
    refine (h.recordSubject _ hargs).bind fun subject _ => .pure (hφ.list_iff.mpr fun x hx => ?_)
    obtain ⟨name, -, rfl⟩ := List.mem_map.mp hx
    exact hφ.atom rfl rfl
  | _ => exact .fail _

theorem union (h : T.PassOn φ) (m : Method) : T.PassedOnBy φ (Methods.union m) := by
  intro args hargs
  have hφ := h.hereditary
  have hsubject := hφ.lastArgument hargs
  cases m with
  | render =>
    simp only [Methods.union]
    generalize DynamicDispatch.lastArgument args = subject at hsubject
    cases subject with
    | union type index fields =>
      exact (h.renderAll fun x hx => hφ.parts hsubject hx).bind fun _ _ => .pure (hφ.atom rfl rfl)
    | _ => exact (h.display hsubject).bind fun _ _ => .fail _
  | _ => exact .fail _

/-- Both folds of a type whose one case holds a value. -/
theorem foldPresent (h : T.PassOn φ) (type : UnionType (Value C)) (present : String) (m : Method) :
    T.PassedOnBy φ (Methods.foldPresent type present m) := by
  intro args hargs
  have hφ := h.hereditary
  refine (functionAt _ 0).bind fun f _ => ?_
  refine (h.instanceOf type m (hφ.lastArgument hargs)).bind fun subject hfields => ?_
  simp only
  split
  · exact h.call f (by simp [hφ.argument hfields 0, hφ.argument hargs 1])
  · exact .pure (hφ.argument hargs 1)

/-- A held function applied to a container. -/
theorem applyPresent (h : T.PassOn φ) (type : UnionType (Value C)) (present : String) :
    T.PassedOnBy φ (Methods.applyPresent type present) := by
  intro args hargs
  have hφ := h.hereditary
  refine (h.instanceOf type .ap (hφ.lastArgument hargs)).bind fun subject _ => ?_
  simp only
  split
  · exact (functionAt _ 0).bind fun f _ => h.map f (hφ.argument hargs 0)
  · exact .pure (hφ.lastArgument hargs)

theorem maybe (h : T.PassOn φ) (m : Method) : T.PassedOnBy φ (Methods.maybe m) := by
  intro args hargs
  have hφ := h.hereditary
  have hlast := hφ.lastArgument hargs
  cases m with
  | clone =>
    refine (h.instanceOf .maybe _ hlast).bind fun subject hfields => ?_
    simp only
    split
    · exact (h.method₁ .clone (hφ.argument hfields 0)).bind fun _ hv => .pure (hφ.some hv)
    · exact .pure hlast
  | shallowClone => exact .pure (hφ.argument hargs 0)
  | empty => exact .pure hφ.none
  | append =>
    refine (h.instanceOf .maybe _ hlast).bind fun subject hfields => ?_
    refine (h.instanceOf .maybe _ (hφ.argument hargs 0)).bind fun added hadded => ?_
    simp only
    split
    · refine (h.method₂ .append (hφ.argument hadded 0) (hφ.argument hfields 0)).bind ?_
      exact fun _ hv => .pure (hφ.some hv)
    · exact .pure (hφ.argument hargs 0)
    · exact .pure hlast
  | foldl => exact h.foldPresent .maybe "Some" .foldl args hargs
  | foldr => exact h.foldPresent .maybe "Some" .foldr args hargs
  | map =>
    refine (functionAt _ 0).bind fun f _ => (h.instanceOf .maybe _ hlast).bind fun _ hfields => ?_
    simp only
    split
    · refine (h.call f (List.forall_mem_singleton.mpr (hφ.argument hfields 0))).bind ?_
      exact fun _ hv => .pure (hφ.maybe_of hv)
    · exact .pure hlast
  | cata =>
    refine (functionAt _ 0).bind fun f _ => (functionAt _ 1).bind fun g _ => ?_
    refine (h.instanceOf .maybe _ hlast).bind fun _ hfields => ?_
    simp only
    split
    · exact h.call f hfields
    · exact h.call g fun x hx => absurd hx List.not_mem_nil
  | bimap =>
    refine (functionAt _ 0).bind fun f _ => (h.instanceOf .maybe _ hlast).bind fun _ hfields => ?_
    simp only
    split
    · refine (h.call f (List.forall_mem_singleton.mpr (hφ.argument hfields 0))).bind ?_
      exact fun _ hv => .pure (hφ.some hv)
    · exact .pure hlast
  | of => exact .pure (hφ.some (hφ.argument hargs 0))
  | flatten =>
    refine (h.instanceOf .maybe _ hlast).bind fun _ hfields => ?_
    simp only
    split
    · exact .pure (hφ.maybe_of (hφ.argument hfields 0))
    · exact .pure hlast
  | ap => exact h.applyPresent .maybe "Some" args hargs
  | _ => exact .fail _

theorem result (h : T.PassOn φ) (m : Method) : T.PassedOnBy φ (Methods.result m) := by
  intro args hargs
  have hφ := h.hereditary
  have hlast := hφ.lastArgument hargs
  cases m with
  | clone =>
    refine (h.instanceOf .result _ hlast).bind fun _ hfields => ?_
    exact (h.method₁ .clone (hφ.argument hfields 0)).bind fun _ hv => .pure (hφ.result _ hv)
  | shallowClone => exact .pure (hφ.argument hargs 0)
  | empty =>
    refine (h.instanceOf .result _ hlast).bind fun _ hfields => ?_
    exact (h.method₁ .empty (hφ.argument hfields 0)).bind fun _ hv => .pure (hφ.result _ hv)
  | append =>
    refine (h.instanceOf .result _ hlast).bind fun subject hfields => ?_
    refine (h.instanceOf .result _ (hφ.argument hargs 0)).bind fun added hadded => ?_
    simp only
    have happend := h.method₂ .append (hφ.argument hadded 0) (hφ.argument hfields 0)
    split
    · exact happend.bind fun _ hv => .pure (hφ.result "Ok" hv)
    · exact happend.bind fun _ hv => .pure (hφ.result "Err" hv)
    · exact .pure (hφ.argument hargs 0)
    · exact .pure hlast
  | foldl => exact h.foldPresent .result "Ok" .foldl args hargs
  | foldr => exact h.foldPresent .result "Ok" .foldr args hargs
  | map =>
    refine (functionAt _ 0).bind fun f _ => (h.instanceOf .result _ hlast).bind fun _ hfields => ?_
    simp only
    split
    · refine (h.call f (List.forall_mem_singleton.mpr (hφ.argument hfields 0))).bind ?_
      exact fun _ hv => .pure (hφ.result "Ok" hv)
    · exact .pure hlast
  | cata =>
    refine (functionAt _ 0).bind fun f _ => (functionAt _ 1).bind fun g _ => ?_
    refine (h.instanceOf .result _ hlast).bind fun _ hfields => ?_
    simp only
    split
    · exact h.call f hfields
    · exact h.call g hfields
  | bimap =>
    refine (functionAt _ 0).bind fun f _ => (functionAt _ 1).bind fun g _ => ?_
    refine (h.instanceOf .result _ hlast).bind fun _ hfields => ?_
    have hfield := List.forall_mem_singleton.mpr (hφ.argument hfields 0)
    simp only
    split
    · exact (h.call f hfield).bind fun _ hv => .pure (hφ.result "Ok" hv)
    · exact (h.call g hfield).bind fun _ hv => .pure (hφ.result "Err" hv)
  | of => exact .pure (hφ.result "Ok" (hφ.argument hargs 0))
  | flatten =>
    refine (h.instanceOf .result _ hlast).bind fun _ hfields => ?_
    simp only
    split
    · exact .pure (hφ.argument hfields 0)
    · exact .pure hlast
  | ap => exact h.applyPresent .result "Ok" args hargs
  | _ => exact .fail _

/-- The methods of a type of numbers give its records. -/
theorem monoid {type : RecordType (Value C)} (htype : ∀ x, φ (.record type [.number x]))
    (identity : Float) (join : Float → Float → Float) (m : Method) :
    T.PassedOnBy φ (Methods.monoid type identity join m) := by
  intro args _
  have hnumber : ∀ v : Value C, T.Keeps (fun _ => True) (Methods.numberIn type v) := by
    intro v
    cases v with
    | record t fields =>
      simp only [Methods.numberIn]
      split
      · split <;> exact .pure trivial
      · exact .fail _
    | _ => exact .fail _
  cases m with
  | empty => exact .pure (htype identity)
  | append => exact (hnumber _).bind fun _ _ => (hnumber _).bind fun _ _ => .pure (htype _)
  | _ => exact .fail _

/-- Every implementation of every family passes the property on. -/
theorem provided (h : T.PassOn φ) (family : Family) (m : Method) :
    T.PassedOnBy φ (family.implementation m) :=
  match family with
  | .nil => h.scalar (fun _ => "Nil") m
  | .bool => h.scalar Methods.renderBool m
  | .number => h.scalar Methods.renderNumber m
  | .function => h.scalar Methods.renderFunction m
  | .placeholder => h.scalar (fun _ => "__") m
  | .list => h.list m
  | .text => h.text m
  | .map => h.mapMethod m
  | .task => h.task m
  | .record => h.record m
  | .union => h.union m
  | .maybe => h.maybe m
  | .result => h.result m
  | .sum => monoid h.hereditary.sum _ _ m
  | .product => monoid h.hereditary.product _ _ m

end Families

end Terms.PassOn

/-- A function of the library as the registry has it: a family's method, as it is or collecting its
arguments. -/
def Callable.isProvided (f : Func C) : Bool :=
  match f.code with
  | .builtin _ _ => true
  | .curried _ ⟨_, _, _, .builtin _ _⟩ => true
  | _ => false

/-- The terms under which functions are called on values that have a property, and give such values. -/
def Terms.passing (φ : Value C → Prop) : Terms C S where
  asks
    | .call _ args => ∀ v ∈ args, φ v
    | _ => False
  answers
    | .call _ _, v => φ v
    | _, _ => True
  worlds _ := True
  moves _ _ := True

namespace Hereditary

variable {φ : Value C → Prop}

/-- A hereditary property is passed on. -/
theorem passOn (h : Hereditary φ) : (Terms.passing (S := S) φ).PassOn φ where
  hereditary := h
  mints _ _ _ _ := ⟨trivial, trivial⟩
  asks _ _ hargs := hargs
  answers hv := hv

/-- A function of the library passes a hereditary property on. -/
theorem keeps_body [Embedding C S] (h : Hereditary φ) {f : Func C} (hf : f.isProvided = true)
    {args : List (Value C)} (hargs : ∀ v ∈ args, φ v) :
    (Terms.passing (S := S) φ).Keeps φ (f.body args) := by
  unfold Callable.isProvided at hf
  unfold Callable.body
  split at hf
  · rename_i family m hcode
    simp only [hcode]
    exact h.passOn.provided family m args hargs
  · rename_i n id name arity family m hcode
    simp only [hcode]
    exact h.passOn.supply n _ hargs
  · cases hf

/-- With every call of another function than the library's seen, as far as they give values that have a
hereditary property, everything has it. -/
theorem upheld [Embedding C S] (h : Hereditary φ) :
    (Terms.passing (S := S) φ).Upheld (fun f => !f.isProvided)
      (fun c => ∀ v, c.result = .ok v → φ v) fun _ _ _ => True where
  nil _ := trivial
  append _ _ := trivial
  move _ _ _ := trivial
  keeps q hq hwatch := by
    cases q with
    | call f args => exact h.keeps_body (by simpa using hwatch f args rfl) hq
    | _ => exact absurd hq id
  seen _ _ _ _ hfair := ⟨trivial, trivial, hfair⟩

/-- What an action that passes the property on shows, as far as the functions called beside the
library's give values that have it. -/
theorem shows [Embedding C S] (h : Hereditary φ) {p : Action C S (Value C)}
    (hp : (Terms.passing φ).Keeps φ p) {w w' : World C S} {calls : List (SeenCall C)} {v : Value C}
    (hshows : p.Shows (fun f => !f.isProvided) w calls (.ok v) w')
    (hcalls : ∀ c ∈ calls, ∀ x, c.result = .ok x → φ x) : φ v :=
  (h.upheld.shows trivial (hp w trivial) hshows hcalls).2.2 v rfl

end Hereditary

end DynamicDispatch
