import DynamicDispatch.Multimethod
import DynamicDispatch.Proofs.Construction.Texts
import DynamicDispatch.Proofs.Registry.Resolution

/-!
# Values of declared types are rendered

Every type comes with a rendering, and an extension can only put another one in its place. So after any
history of registrations whose own renderings give texts, a value of the types of the history is rendered,
however deep it is nested: displaying it never has to fall back on the name of its type, a multimethod
without a handler for its arguments can report them, and so can a construction the values that it refuses.
-/

namespace DynamicDispatch

variable {C S : Type}

/-- The last family that provides a method for a type, when there is one and all that do are the same. -/
theorem Registry.provider?_eq_some {part : List (TypeKey × Family)} {key : TypeKey} {m : Method}
    {family : Family} (hsome : ∃ e ∈ part, e.1 = key ∧ m ∈ e.2.methods)
    (hall : ∀ e ∈ part, e.1 = key → m ∈ e.2.methods → e.2 = family) :
    provider? part key m = some family := by
  unfold provider?
  cases hfind : part.reverse.find? fun e => e.1 = key ∧ m ∈ e.2.methods with
  | none =>
    obtain ⟨e, he, hprovides⟩ := hsome
    have hnone := List.find?_eq_none.mp hfind e (List.mem_reverse.mpr he)
    simp only [decide_eq_true_eq] at hnone
    exact absurd hprovides hnone
  | some e =>
    have hprovides := List.find?_some hfind
    simp only [decide_eq_true_eq] at hprovides
    have hmem := List.mem_reverse.mp (List.mem_of_find?_eq_some hfind)
    rw [Option.map_some, hall e hmem hprovides.1 hprovides.2]

/-- A function of one parameter at most is registered as it is, also where arguments are collected. -/
theorem Listing.Gives.eq_function {l : Listing C} {g : Func C} (h : l.Gives g)
    (harity : l.function.arity ≤ 1) : g = l.function := by
  unfold Listing.Gives at h
  by_cases hcollects : l.collects = true
  · rw [if_pos hcollects] at h
    obtain ⟨next, rfl⟩ := h
    rw [curry, curryN, if_pos (Nat.lt_succ_of_le harity)]
    rfl
  · rw [if_neg hcollects] at h
    exact h

/-- The family of the values of a type. Nothing is a value of everything iterable. -/
def TypeKey.family? : TypeKey → Option Family
  | .nil => some .nil
  | .bool => some .bool
  | .number => some .number
  | .text => some .text
  | .list => some .list
  | .map => some .map
  | .function => some .function
  | .task => some .task
  | .placeholder => some .placeholder
  | .iterator => none
  | .record _ => some .record
  | .union _ => some .union

/-- It is the family of each of its values. -/
@[simp]
theorem Value.family?_typeKey (v : Value C) : v.typeKey.family? = some v.family := by
  cases v <;> rfl

/-- The standard family that renders the values of a type is the one of these values. -/
theorem Registry.family?_of_mem_standardParts {e : TypeKey × Family} (he : e ∈ standardParts C)
    (hrender : Method.render ∈ e.2.methods) : e.1.family? = some e.2 := by
  have hall : ∀ e ∈ standardParts C, Method.render ∈ e.2.methods → e.1.family? = some e.2 := by
    simp [standardParts, parts, standardTypes, Family.methods, TypeKey.family?, UnionType.key,
      RecordType.key]
  exact hall e he hrender

/-- Every standard type comes with a rendering. -/
theorem Registry.exists_render_standardParts {e : TypeKey × Family} (he : e ∈ standardParts C) :
    ∃ e' ∈ standardParts C, e'.1 = e.1 ∧ Method.render ∈ e'.2.methods := by
  have hall : ∀ e ∈ standardParts C, ∃ e' ∈ standardParts C, e'.1 = e.1 ∧
      Method.render ∈ e'.2.methods := by
    simp [standardParts, parts, standardTypes, Family.methods, UnionType.key, RecordType.key,
      UnionType.maybe, UnionType.result, RecordType.sum, RecordType.product]
  exact hall e he

/-- The types that exist from the start exist after every history. -/
theorem History.mem_families_of_standard (past : List (Completed C)) {key : TypeKey}
    (hkey : key ∈ (Registry.standardParts C).map (·.1)) : key ∈ (families past).map (·.1) := by
  rw [families, List.map_append]
  exact List.mem_append_left _ hkey

namespace Value

/-- A value of types that exist after a history, at every depth. -/
def DeclaredIn (past : List (Completed C)) (v : Value C) : Prop :=
  ∀ x : Value C, x.Inside v → x.typeKey ∈ (History.families past).map (·.1)

variable {past : List (Completed C)} {v : Value C}

/-- The parts of such a value are such. -/
theorem DeclaredIn.of_mem_parts (h : v.DeclaredIn past) {x : Value C} (hx : x ∈ v.parts) :
    x.DeclaredIn past :=
  fun y hy => h y (.part hx hy)

/-- A value is such when its own type exists and its parts are such. -/
theorem declaredIn_of_parts (hv : v.typeKey ∈ (History.families past).map (·.1))
    (hparts : ∀ x ∈ v.parts, x.DeclaredIn past) : v.DeclaredIn past := by
  intro x hx
  cases hx with
  | whole => exact hv
  | part hy hx => exact hparts _ hy x hx

/-- The type of a value that is no record and no instance of a union exists after every history. -/
theorem typeKey_mem_families_of_plain (hkind : v.kind = .plain) :
    v.typeKey ∈ (History.families past).map (·.1) := by
  refine History.mem_families_of_standard past ?_
  cases v with
  | record _ _ | union _ _ _ => cases hkind
  | _ => simp [typeKey, Registry.standardParts, Registry.parts]

/-- A value that is no record and no instance of a union is such when its parts are. -/
theorem declaredIn_of_plain (hkind : v.kind = .plain) (hparts : ∀ x ∈ v.parts, x.DeclaredIn past) :
    v.DeclaredIn past :=
  declaredIn_of_parts (typeKey_mem_families_of_plain hkind) hparts

/-- Types go on to exist. -/
theorem DeclaredIn.append (h : v.DeclaredIn past) (later : List (Completed C)) :
    v.DeclaredIn (past ++ later) := by
  intro x hx
  have hfamilies : History.families (past ++ later) =
      History.families past ++ History.declared later := by
    simp only [History.families, History.declared, List.flatMap_append, List.append_assoc]
  rw [hfamilies, List.map_append]
  exact List.mem_append_left _ (h x hx)

end Value

variable [Embedding C S]

open DynamicDispatch.Action

/-- A declaration installs the family of the new type's values, and it renders them. -/
theorem Registration.family?_of_yields {call : Registration C} {w w' : World C S} {key : TypeKey}
    {family : Family} (h : call.action.Yields w (.ok (some key)) w')
    (hfamily : call.family? = some family) :
    Method.render ∈ family.methods ∧ key.family? = some family := by
  cases call with
  | declareRecord name fields =>
    obtain ⟨_, hyields, -⟩ := yields_declareRecord name fields w
    obtain rfl : TypeKey.record w.nextId = key := by simpa using (hyields.unique h).1
    obtain rfl := Option.some.inj hfamily
    exact ⟨by decide, rfl⟩
  | declareUnion name cases =>
    obtain ⟨_, hyields, -⟩ := yields_declareUnion name cases w
    obtain rfl : TypeKey.union w.nextId = key := by simpa using (hyields.unique h).1
    obtain rfl := Option.some.inj hfamily
    exact ⟨by decide, rfl⟩
  | _ => cases hfamily

namespace History

variable {host : S} {past : List (Completed C)} {w : World C S}

/-- In a history every declared type comes with the family of its values, and that renders them. -/
theorem family?_of_mem_declared (h : History host past w) {e : TypeKey × Family}
    (he : e ∈ declared past) : Method.render ∈ e.2.methods ∧ e.1.family? = some e.2 := by
  induction h with
  | start => cases he
  | between _ _ _ ih => exact ih he
  | @call past call w w' result _ _ observed ih =>
    rw [declared_concat] at he
    rcases List.mem_append.mp he with he | he
    · exact ih he
    · cases hfamily : call.family? with
      | none => simp [Completed.declared, hfamily] at he
      | some family =>
        rcases result with error | _ | key
        · simp [Completed.declared, hfamily] at he
        · simp [Completed.declared, hfamily] at he
        · obtain rfl : e = (key, family) := by simpa [Completed.declared, hfamily] using he
          exact Registration.family?_of_yields observed hfamily

/-- A value of a type that exists after a history has a rendering, the one of its family. -/
theorem provider?_render (h : History host past w) {v : Value C}
    (hv : v.typeKey ∈ (families past).map (·.1)) :
    Registry.provider? (families past) v.typeKey .render = some v.family := by
  refine Registry.provider?_eq_some ?_ fun e he hkey hrender => ?_
  · obtain ⟨e, he, hkey⟩ := List.mem_map.mp hv
    rcases List.mem_append.mp he with hstandard | hdeclared
    · obtain ⟨e', he', hsame, hrender⟩ := Registry.exists_render_standardParts hstandard
      exact ⟨e', List.mem_append_left _ he', hsame.trans hkey, hrender⟩
    · exact ⟨e, he, hkey, (h.family?_of_mem_declared hdeclared).1⟩
  · have hfamily : e.1.family? = some e.2 := by
      rcases List.mem_append.mp he with hstandard | hdeclared
      · exact Registry.family?_of_mem_standardParts hstandard hrender
      · exact (h.family?_of_mem_declared hdeclared).2
    rw [hkey, Value.family?_typeKey] at hfamily
    exact (Option.some.inj hfamily).symm

/-- Every rendering that a history lists is one of the given ones. -/
def Supplies (supplied : TypeKey → Func C → Prop) (past : List (Completed C)) : Prop :=
  ∀ l ∈ listings past, l.function.name = Method.render.name → supplied l.key l.function

/-- What such a value's rendering resolves to is the one of its family or a given one. -/
theorem resolve_render (h : History host past w) {supplied : TypeKey → Func C → Prop}
    (hsupplies : Supplies supplied past) (harity : ∀ key f, supplied key f → f.arity ≤ 1) {v : Value C}
    (hv : v.typeKey ∈ (families past).map (·.1)) :
    ∃ f, w.registry.resolve v Method.render.name = some f ∧
      ((∃ id, f = ⟨id, Method.render.name, Method.render.arity, .builtin v.family .render⟩) ∨
        supplied v.typeKey f) := by
  have hrel := h.tells.resolve v Method.render.name
  have hprovided : (Registry.provided? (families past) v.typeKey Method.render.name :
      Option (Origin C)) = some (.provided v.family .render) := by
    rw [Registry.provided?_name, h.provider?_render hv]
    rfl
  cases hlast : Listing.last? (listings past) v.typeKey Method.render.name with
  | none =>
    have horigin : resolved? past v Method.render.name = some (.provided v.family .render) := by
      rw [resolved?, origin?, hlast, hprovided]
      rfl
    rw [horigin] at hrel
    obtain ⟨f, hf, id, next, rfl⟩ := Origin.exists_of_rel hrel
    exact ⟨_, hf, Or.inl ⟨id, rfl⟩⟩
  | some l =>
    have horigin : resolved? past v Method.render.name = some (.listed l) := by
      rw [resolved?, origin?, hlast]
      rfl
    rw [horigin] at hrel
    obtain ⟨f, hf, hgives⟩ := Origin.exists_of_rel hrel
    obtain ⟨hmem, hkey⟩ := Listing.mem_of_last?_eq_some hlast
    have hname : l.function.name = Method.render.name := by
      have hfound := List.find?_some hlast
      simp only [decide_eq_true_eq] at hfound
      exact hfound.2
    have hl := hsupplies l hmem hname
    have hself : f = l.function := Listing.Gives.eq_function hgives (harity _ _ hl)
    exact ⟨f, hf, Or.inr (by rw [hself, ← hkey]; exact hl)⟩

/-- The world is one that a history leads to which begins with `past` and lists given renderings only. -/
def Leads (host : S) (supplied : TypeKey → Func C → Prop) (past : List (Completed C))
    (w : World C S) : Prop :=
  ∃ later, History host (past ++ later) w ∧ Supplies supplied (past ++ later)

end History

open History

/-- Renderings for types as programs supply them. Each has one parameter at most. Given a value of its
type, wherever a history with such renderings has led, it gives a text, and whatever it does meanwhile the
history goes on with such renderings. -/
structure GivesTexts (host : S) (supplied : TypeKey → Func C → Prop) : Prop where
  arity_le : ∀ key f, supplied key f → f.arity ≤ 1
  yields : ∀ {key f}, supplied key f → ∀ {past : List (Completed C)} {w : World C S},
    Leads host supplied past w → ∀ v : Value C, v.DeclaredIn past → v.typeKey = key →
      ∃ s w', (call f [v]).Yields w (.ok (.text s)) w' ∧ Leads host supplied past w'

namespace GivesTexts

variable {host : S} {supplied : TypeKey → Func C → Prop} {past : List (Completed C)}

/-- With such renderings the values of the types of a history are rendered. -/
theorem rendering (h : GivesTexts host supplied) (past : List (Completed C)) :
    Rendering (Leads host supplied past) False (Value.DeclaredIn past) := by
  have hresolve : ∀ {w : World C S} {v : Value C}, Leads host supplied past w → v.DeclaredIn past →
      ∃ f, w.registry.resolve v Method.render.name = some f ∧
        ((∃ id, f = ⟨id, Method.render.name, Method.render.arity, .builtin v.family .render⟩) ∨
          supplied v.typeKey f) := by
    rintro w v ⟨later, hhistory, hsupplies⟩ hv
    exact hhistory.resolve_render hsupplies h.arity_le (hv.append later v (.whole v))
  refine ⟨fun hv hx => hv.of_mem_parts hx, fun {w v f} hw hv hf => ?_, fun {w v} hw hv hnone => ?_⟩
  · obtain ⟨f', hf', hfamily | hsupplied⟩ := hresolve hw hv
    · obtain rfl := Option.some.inj (hf.symm.trans hf')
      exact Or.inl hfamily
    · obtain rfl := Option.some.inj (hf.symm.trans hf')
      refine Or.inr fun u hu => Or.inl ?_
      obtain ⟨s, u', hyields, hu'⟩ := h.yields hsupplied hu v hv rfl
      exact ⟨.text s, u', hyields, hu', Or.inl ⟨s, rfl⟩⟩
  · obtain ⟨f, hf, -⟩ := hresolve hw hv
    rw [hf] at hnone
    cases hnone

/-- Rendering such a value gives a text, and so the same text is displayed. -/
theorem render (h : GivesTexts host supplied) {w : World C S} (hw : Leads host supplied past w)
    {v : Value C} (hv : v.DeclaredIn past) :
    ∃ s w', (Generic.render v).Yields w (.ok s) w' ∧ (Generic.display v).Yields w (.ok s) w' ∧
      Leads host supplied past w' := by
  obtain ⟨s, w', hyields, hw', -⟩ | ⟨hfalse, -⟩ := (h.rendering past).render hv w hw
  · exact ⟨s, w', hyields, hyields.attempt.bind (yields_pure s w'), hw'⟩
  · exact hfalse.elim

/-- So rendering and displaying agree, and lead to a world of the same kind. -/
theorem agreeOn_render (h : GivesTexts host supplied) (watch : Func C → Bool) {v : Value C}
    (hv : v.DeclaredIn past) :
    (Generic.render v : Action C S String).AgreeOn watch (Leads host supplied past)
        (Generic.display v) ∧
      (Generic.display v : Action C S String).Leaves watch (Leads host supplied past)
        fun _ => True := by
  have hshown : ∀ w : World C S, Leads host supplied past w → ∃ calls s w',
      (Generic.render v).Shows watch w calls (.ok s) w' ∧
        (Generic.display v).Shows watch w calls (.ok s) w' ∧ Leads host supplied past w' := by
    intro w hw
    obtain ⟨s, w', hrender, -, hw'⟩ := h.render hw hv
    obtain ⟨calls, hshows⟩ := (yields_iff_shows watch).mp hrender
    have hdisplay : (Generic.display v).Shows watch w (calls ++ []) (.ok s) w' := by
      unfold Generic.display
      exact (shows_attempt_iff.mpr ⟨_, rfl, hshows⟩).bind (shows_pure _ _)
    rw [List.append_nil] at hdisplay
    exact ⟨calls, s, w', hshows, hdisplay, hw'⟩
  refine ⟨fun w hw calls r w' => ⟨fun hseen => ?_, fun hseen => ?_⟩, fun w hw calls r w' hseen => ?_⟩
  · obtain ⟨_, s, _, hrender, hdisplay, -⟩ := hshown w hw
    obtain ⟨rfl, rfl, rfl⟩ := hrender.unique hseen
    exact hdisplay
  · obtain ⟨_, s, _, hrender, hdisplay, -⟩ := hshown w hw
    obtain ⟨rfl, rfl, rfl⟩ := hdisplay.unique hseen
    exact hrender
  · obtain ⟨_, s, w'', -, hdisplay, hw''⟩ := hshown w hw
    obtain ⟨-, -, rfl⟩ := hdisplay.unique hseen
    exact ⟨hw'', trivial⟩

/-- A multimethod without a handler for its arguments reports them as they are rendered. -/
theorem noMatchingHandler (h : GivesTexts host supplied) {m : Multimethod C} {args : List (Value C)}
    {key : Value C} {w₀ w₁ w : World C S} (hkey : (call m.dispatch args).Yields w₀ (.ok key) w₁)
    (hselect : (Multimethod.select key ((w₁.multimethods.get? m.id).getD {}).pairs).Yields w₁
      (.ok none) w)
    (hwildcard : ((w₁.multimethods.get? m.id).getD {}).wildcard = none)
    (hw : Leads host supplied past w) (hargs : ∀ v ∈ args, v.DeclaredIn past) :
    ∃ s w', (Generic.render (.list args)).Yields w (.ok s) w' ∧
      (m.call args).Yields w₀ (.error (.noMatchingHandler s)) w' := by
  have hlist : (Value.list args).DeclaredIn past := Value.declaredIn_of_plain rfl hargs
  obtain ⟨s, w', hrender, -, -⟩ := h.render hw hlist
  refine ⟨s, w', hrender, hkey.bind ?_⟩
  have hmethods : (m.methods : Action C S (MethodList C)).Yields w₁
      (.ok ((w₁.multimethods.get? m.id).getD {})) w₁ := ⟨0, rfl⟩
  refine hmethods.bind (hselect.bind ?_)
  simp only [hwildcard]
  exact hrender.bind (yields_done _ w')

/-- A construction that refuses values reports what it also reports when it insists on renderings. -/
theorem construction (h : GivesTexts host supplied) {fields : List (String × Descriptor (Value C))}
    {stored : List (Value C) → Value C} {construct : List (Value C) → Action C S (Value C)}
    (hchecks : Construction.Checks S fields stored construct) {values : List (Value C)}
    {insisting : Action C S (Value C)}
    (hagree : insisting.AgreeOn (fun _ => false) (Leads host supplied past) (construct values))
    (hshown : ∀ v, Construction.Shown fields values v → v.DeclaredIn past)
    (hrejects : ¬ Construction.Accepts fields values) {w : World C S}
    (hw : Leads host supplied past w) :
    ∃ title violated w', (construct values).Yields w (.error (.construction title violated)) w' ∧
      insisting.Yields w (.error (.construction title violated)) w' := by
  have hdisplay : ∀ v, Construction.Shown fields values v →
      (Generic.display v : Action C S String).Ends (Leads host supplied past) False fun _ => True :=
    fun v hv => (h.rendering past).display (hshown v hv)
  obtain ⟨title, violated, _, w', hfails, -, -⟩ := hchecks.exists_reports hrejects
    (fun field hfield v hv => hdisplay v (.literal hfield hv)) (fun i => hdisplay _ (.given i)) hw
  obtain ⟨calls, hseen⟩ := (yields_iff_shows fun _ => false).mp hfails
  exact ⟨title, violated, w', hfails, ((hagree w hw calls _ w').mpr hseen).yields⟩

end GivesTexts

open Construction

/-- After every history of declarations and extensions whose own renderings give texts, every value of the
types of the history is rendered, and what is displayed is the rendering. A multimethod that finds no
handler and has no last resort reports its arguments as they are rendered. A construction that refuses
values reports the same as one that knows no other text for a value than its rendering. -/
theorem declared_values_are_rendered {host : S} {supplied : TypeKey → Func C → Prop}
    (h : GivesTexts host supplied) (past : List (Completed C)) :
    (∀ w : World C S, Leads host supplied past w → ∀ v : Value C, v.DeclaredIn past →
      ∃ s w', (Generic.render v).Yields w (.ok s) w' ∧ (Generic.display v).Yields w (.ok s) w' ∧
        Leads host supplied past w') ∧
    (∀ (m : Multimethod C) (args : List (Value C)) (key : Value C) (w₀ w₁ w : World C S),
      (call m.dispatch args).Yields w₀ (.ok key) w₁ →
      (Multimethod.select key ((w₁.multimethods.get? m.id).getD {}).pairs).Yields w₁ (.ok none) w →
      ((w₁.multimethods.get? m.id).getD {}).wildcard = none →
      Leads host supplied past w → (∀ v ∈ args, v.DeclaredIn past) →
      ∃ s w', (Generic.render (.list args)).Yields w (.ok s) w' ∧
        (m.call args).Yields w₀ (.error (.noMatchingHandler s)) w') ∧
    (∀ (type : RecordType (Value C)) (values : List (Value C)),
      (∀ v, Shown type.fields values v → v.DeclaredIn past) → ¬ Accepts type.fields values →
      ∀ w : World C S, Leads host supplied past w → ∃ title violated w',
        (type.construct values).Yields w (.error (.construction title violated)) w' ∧
        (type.constructBy Generic.render values).Yields w (.error (.construction title violated)) w') ∧
    ∀ (type : UnionType (Value C)) (case : String) (fields : List (Descriptor (Value C)))
      (values : List (Value C)), type.caseFields? case = some fields →
      (∀ v, Shown (positions fields) values v → v.DeclaredIn past) →
      ¬ Accepts (positions fields) values → ∀ w : World C S, Leads host supplied past w →
      ∃ title violated w',
        (type.construct case values).Yields w (.error (.construction title violated)) w' ∧
        (type.constructBy Generic.render case values).Yields w
          (.error (.construction title violated)) w' := by
  have hcongruent := congruent_agreeOn (fun _ => false) (Leads host supplied past)
  refine ⟨fun w hw v hv => h.render hw hv, fun m args key w₀ w₁ w => ?_,
    fun type values hshown hrejects w hw => ?_, fun type case fields values hcase hshown hrejects w hw => ?_⟩
  · exact h.noMatchingHandler
  · have hagree := RecordType.constructBy_of_congruent hcongruent values fun v hv =>
      h.agreeOn_render _ (hshown v hv)
    exact h.construction type.checks hagree.1 hshown hrejects hw
  · have hagree := UnionType.constructBy_of_congruent hcongruent values hcase fun v hv =>
      h.agreeOn_render _ (hshown v hv)
    exact h.construction (UnionType.checks hcase) hagree.1 hshown hrejects hw

/-- A record type is declared under the identity `n` and extended by a rendering. -/
def marked (n : Nat) : List (Completed Empty) :=
  [⟨.declareRecord "P" [], .ok (some (.record n))⟩,
    ⟨.extendType (.record n) [(Method.render.protocol, [renderedAsNil])], .ok none⟩]

/-- There is such a history, of which the only rendering is the one listed, and a world that it leads to
and in which no multimethod has methods. -/
theorem exists_marked : ∃ (n : Nat) (w : World Empty Unit),
    Leads () (fun _ f => f = renderedAsNil) (marked n) w ∧ w.multimethods = .empty := by
  obtain ⟨w₁, hfirst, hfirstEffect⟩ :=
    Registration.yields_declareRecord (C := Empty) "P" [] (World.initial ())
  generalize (World.initial (C := Empty) ()).nextId = n at hfirst hfirstEffect
  obtain ⟨hbelow, -⟩ := hfirstEffect.below
  obtain ⟨w₂, hsecond⟩ := yields_extendType_renderedAsNil (.record n) w₁
  have hhistory : History () (marked n) w₂ :=
    (History.start.call (by simp [Registration.extended]) hfirst).call
      (by simpa [Registration.extended] using hbelow) hsecond
  refine ⟨n, { w₂ with multimethods := .empty }, ⟨[], ?_, ?_⟩, rfl⟩
  · rw [List.append_nil]
    exact hhistory.between rfl (Nat.le_refl _)
  · intro l hl _
    have hlisted : l = ⟨.record n, renderedAsNil, true⟩ := by
      simpa [listings, marked, Completed.listings, Registration.listings] using hl
    rw [hlisted]

/-- The rendering in which every value is nil gives a text. -/
theorem givesTexts_renderedAsNil :
    GivesTexts (C := Empty) () fun _ f => f = renderedAsNil := by
  refine ⟨?_, ?_⟩
  · rintro _ _ rfl
    exact Nat.le_refl 1
  · rintro _ _ rfl past w hw v - -
    have hbody : (renderedAsNil.body [v] : Action Empty Unit (Value Empty)).Yields w
        (.ok (.text "Nil")) w := ⟨0, rfl⟩
    exact ⟨"Nil", w, hbody.call, hw⟩

/-- A record of a type with a rendering of its own, inside a list inside a map, is rendered. A multimethod
without methods reports it, and so does a construction that refuses it. -/
theorem declared_values_are_rendered_marked : ∃ (n : Nat) (w : World Empty Unit),
    let v : Value Empty := .map [("a", .list [.record ⟨n, "P", []⟩ []])]
    let pair : RecordType (Value Empty) := ⟨100, "Pair", [("first", .oneOf [.bool, .literal .nil])]⟩
    (∃ s w', (Generic.render v).Yields w (.ok s) w' ∧ (Generic.display v).Yields w (.ok s) w') ∧
    (∃ s w', (Multimethod.call ⟨0, renderedAsNil⟩ [v]).Yields w (.error (.noMatchingHandler s)) w') ∧
    ∃ title violated w', (pair.construct [v]).Yields w (.error (.construction title violated)) w' ∧
      (pair.constructBy Generic.render [v]).Yields w (.error (.construction title violated)) w' := by
  obtain ⟨n, w, hw, hmethods⟩ := exists_marked
  refine ⟨n, w, ?_⟩
  intro v pair
  have hrecord : (Value.record ⟨n, "P", []⟩ []).DeclaredIn (marked n) :=
    Value.declaredIn_of_parts (by simp [families, declared, marked, Completed.declared,
      Registration.family?, Value.typeKey, RecordType.key]) (by simp [Value.parts])
  have hlist : (Value.list [.record ⟨n, "P", []⟩ []]).DeclaredIn (marked n) :=
    Value.declaredIn_of_plain rfl (by simpa [Value.parts] using hrecord)
  have hv : v.DeclaredIn (marked n) :=
    Value.declaredIn_of_plain rfl (by simpa [v, Value.parts] using hlist)
  have hnil : Value.nil.DeclaredIn (marked n) :=
    Value.declaredIn_of_plain rfl (by simp [Value.parts])
  obtain ⟨hrender, hmultimethod, hconstruct, -⟩ :=
    declared_values_are_rendered givesTexts_renderedAsNil (marked n)
  refine ⟨?_, ?_, ?_⟩
  · obtain ⟨s, w', hrendered, hdisplayed, -⟩ := hrender w hw v hv
    exact ⟨s, w', hrendered, hdisplayed⟩
  · have hkey : (call renderedAsNil [v] : Action Empty Unit (Value Empty)).Yields w
        (.ok (.text "Nil")) w := Yields.call ⟨0, rfl⟩
    have hnone : (w.multimethods.get? 0).getD {} = {} := by
      rw [hmethods]
      rfl
    obtain ⟨s, w', -, hfails⟩ := hmultimethod ⟨0, renderedAsNil⟩ [v] (.text "Nil") w w w hkey
      (by rw [hnone]; exact yields_pure none w) (by rw [hnone]) hw (by simpa using hv)
    exact ⟨s, w', hfails⟩
  · refine hconstruct pair [v] (fun x hx => hx.of_forall ?_ (by simpa using hv) hnil) ?_ w hw
    · simpa [pair] using hnil
    · simp [accepts_iff_acceptsFields, pair, v, Descriptor.acceptsFields, Descriptor.accepts,
        Descriptor.someAccepts, Value.equal]

end DynamicDispatch
