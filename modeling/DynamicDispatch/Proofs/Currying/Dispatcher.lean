import DynamicDispatch.Proofs.Registry.Resolution

/-!
# Dispatchers and what they dispatch to

Between the caller of a method and its implementation stand up to three functions that do nothing of
their own: one that collects the arguments of the method, the dispatcher, and one that collects the
arguments of the implementation when the type was extended by it. One who looks through them sees the
last chunk of arguments become a call of the method in the registry of that moment, and the call
become one call of the implementation, whichever way it was registered.
-/

namespace DynamicDispatch

variable {C S : Type}

/-- Functions that only hand arguments on: those that collect them, and dispatchers. -/
def Callable.handsOn (f : Func C) : Bool :=
  match f.code with
  | .curried _ _ | .collecting _ _ _ | .dispatcher _ _ => true
  | _ => false

/-- One who watches other functions than those that only hand arguments on. -/
def LooksThrough (watch : Func C → Bool) : Prop := ∀ f : Func C, f.handsOn = true → watch f = false

/-- A function that was called with a first chunk of arguments, the function that this gave with the
next one, and so on, each call in a world of its own: `q` is what the last one gave. -/
inductive Fed [Embedding C S] (g : Func C) : List (List (Value C)) → Func C → Prop
  | start : Fed g [] g
  | chunk {chunks : List (List (Value C))} {chunk : List (Value C)} {q q' : Func C}
      {w w' : World C S} (earlier : Fed g chunks q)
      (yields : (call q chunk).Yields w (.ok (.func q')) w') : Fed g (chunks ++ [chunk]) q'

namespace Currying

/-- A collecting function only hands arguments on. -/
theorem Collects.handsOn {n : Nat} {f g : Func C} {slots : List (Value C)}
    (h : Collects n f slots g) : g.handsOn = true := by
  rcases h with h | ⟨h, -⟩ <;> simp [Callable.handsOn, h]

end Currying

/-- What too few arguments, given in chunks, have made of a function is one that holds them. -/
theorem Fed.collects [Embedding C S] {n : Nat} {f g q : Func C} {chunks : List (List (Value C))}
    (hg : Currying.Collects n f [] g) (h : Fed (S := S) g chunks q)
    (hgiven : ∀ v ∈ chunks.flatten, v.isPlaceholder = false) (hlength : chunks.flatten.length < n) :
    Currying.Collects n f chunks.flatten q := by
  induction h with
  | start => exact hg
  | @chunk chunks chunk q q' w w' _ yields ih =>
    rw [List.flatten_concat] at hgiven hlength ⊢
    have hq := ih (fun v hv => hgiven v (List.mem_append_left _ hv)) (by
      rw [List.length_append] at hlength
      omega)
    obtain ⟨q'', hq'', hyields⟩ := hq.yields_body hgiven hlength w
    obtain ⟨hresult, -⟩ := yields.unique hyields.call
    cases hresult
    exact hq''

/-- From two parameters on, the dispatcher of a method is given as a function that collects its
arguments. -/
theorem Protocol.dispatcher_collects {p : Protocol} {name : String} {s : Signature}
    (hs : p.method? name = some s) (hn : 2 ≤ s.arity) (id : Nat) :
    ∃ g d : Func C, ((p.dispatcher name).run id).1 = some g ∧ d.code = .dispatcher p name ∧
      Currying.Collects s.arity d [] g := by
  let d : Func C := ⟨id, name, s.arity, .dispatcher p name⟩
  refine ⟨((curryN s.arity d).run (id + 1)).1, d, ?_, rfl, curryN_collects hn d (id + 1)⟩
  unfold Protocol.dispatcher
  rw [hs]
  rfl

section

variable [Embedding C S] {watch : Func C → Bool}

/-- Looking through what collects its arguments for a function, one sees the function called. -/
theorem alike_call_curry (hlooks : LooksThrough watch) {f : Func C} {args : List (Value C)}
    (hlength : args.length = f.arity) (hgiven : ∀ v ∈ args, v.isPlaceholder = false) (next : Nat) :
    Action.Alike watch Eq (call ((curry f).run next).1 args : Action C S (Value C)) (call f args) := by
  rcases curry_eq_or_collects f next with hself | hcollects
  · rw [hself]
    exact .refl _
  · exact hcollects.alike_call (hlooks _ hcollects.handsOn) hgiven hlength

/-- Whichever way a function was registered, one who looks through what was registered sees the
function called. -/
theorem Listing.Gives.alike_call (hlooks : LooksThrough watch) {l : Listing C} {g : Func C}
    (h : l.Gives g) {args : List (Value C)} (hlength : args.length = l.function.arity)
    (hgiven : ∀ v ∈ args, v.isPlaceholder = false) :
    Action.Alike watch Eq (call g args : Action C S (Value C)) (call l.function args) := by
  unfold Listing.Gives at h
  split at h
  · obtain ⟨next, rfl⟩ := h
    exact alike_call_curry hlooks hlength hgiven next
  · rw [h]
    exact .refl _

namespace Protocol

variable {p : Protocol} {name : String} {s : Signature} {args : List (Value C)} {w : World C S}

/-- After a history in which an implementation was listed for the last argument, whichever way, a call
of the method on as many arguments as it has parameters is seen as a call of the implementation. -/
theorem shows_call_iff_of_listed (hlooks : LooksThrough watch) (hs : p.method? name = some s)
    (hgiven : ∀ v ∈ args, v.isPlaceholder = false) {host : S} {past : List (Completed C)}
    (hpast : History host past w) {l : Listing C}
    (hlisted : History.resolved? past (lastArgument args) name = some (.listed l))
    (hlength : args.length = l.function.arity) (calls : List (SeenCall C))
    (r : Except Error (Value C)) (w' : World C S) :
    (p.call name args).Shows watch w calls r w' ↔
      (DynamicDispatch.call l.function args).Shows watch w calls r w' := by
  have hrel := hpast.tells.resolve (lastArgument args) name
  rw [hlisted] at hrel
  obtain ⟨g, hg, hgives⟩ := Origin.exists_of_rel hrel
  rw [shows_call_iff_of_resolve hs hg]
  exact Action.alike_eq_iff.mp (Listing.Gives.alike_call hlooks hgives hlength hgiven) w calls r w'

/-- The last chunk of the arguments for a dispatcher is seen as a call of the method on all of them. -/
theorem alike_last_chunk (hlooks : LooksThrough watch) {d g q : Func C}
    (hd : d.code = .dispatcher p name) (hg : Currying.Collects s.arity d [] g)
    (hlength : args.length = s.arity) (hgiven : ∀ v ∈ args, v.isPlaceholder = false)
    {chunks : List (List (Value C))} {last : List (Value C)} (hcut : chunks.flatten ++ last = args)
    (hlast : last ≠ []) (hq : Fed (S := S) g chunks q) :
    Action.Alike watch Eq (DynamicDispatch.call q last : Action C S (Value C)) (p.call name args) := by
  subst hcut
  have hfew : chunks.flatten.length < s.arity := by
    have hpos := List.length_pos_iff.mpr hlast
    rw [List.length_append] at hlength
    omega
  have hcollects := hq.collects hg (fun v hv => hgiven v (List.mem_append_left _ hv)) hfew
  have hdispatch := Action.alike_call (S := S)
    (hlooks d (by simp [Callable.handsOn, hd])) (chunks.flatten ++ last)
  have hbody : d.body (S := S) (chunks.flatten ++ last) = p.call name (chunks.flatten ++ last) := by
    simp only [Callable.body, hd]
  exact (hcollects.alike_call (hlooks q hcollects.handsOn) hgiven hlength).trans (hbody ▸ hdispatch)

/-- A chunk before the last one gives a function: the arguments are not complete yet. -/
theorem yields_chunk {d g q : Func C} (hg : Currying.Collects s.arity d [] g)
    (hlength : args.length = s.arity) (hgiven : ∀ v ∈ args, v.isPlaceholder = false)
    {chunks before : List (List (Value C))} {last part : List (Value C)}
    (hcut : chunks.flatten ++ last = args) (hlast : last ≠ []) (hcollected : before ++ [part] <+: chunks)
    (hq : Fed (S := S) g before q) (w : World C S) :
    ∃ q', (DynamicDispatch.call q part).Yields w (.ok (.func q')) (w.minted 1) := by
  obtain ⟨after, rfl⟩ := hcollected
  have hargs : (before.flatten ++ part) ++ (after.flatten ++ last) = args := by
    rw [← hcut]
    simp
  have hsofar : ∀ v ∈ before.flatten ++ part, v.isPlaceholder = false :=
    fun v hv => hgiven v (hargs ▸ List.mem_append_left _ hv)
  have hfew : (before.flatten ++ part).length < s.arity := by
    have hpos := List.length_pos_iff.mpr hlast
    have htotal := congrArg List.length hargs
    simp only [List.length_append] at htotal ⊢
    omega
  have hbefore : before.flatten.length < s.arity := by
    rw [List.length_append] at hfew
    omega
  have hcollects := hq.collects hg (fun v hv => hsofar v (List.mem_append_left _ hv)) hbefore
  obtain ⟨q', -, hyields⟩ := hcollects.yields_body hsofar hfew w
  exact ⟨q', hyields.call⟩

end Protocol

/-- One sees the same calls of an action from one world as of another action from another world, and the
same result. -/
def Action.SameSight (watch : Func C → Bool) {α : Type} (a : Action C S α) (w : World C S)
    (b : Action C S α) (v : World C S) : Prop :=
  ∀ calls r, (∃ w', a.Shows watch w calls r w') ↔ ∃ v', b.Shows watch v calls r v'

/-- A method is dispatched late, and its implementation gets exactly the arguments. Arguments without a
hole, as many as the method has parameters, are given to its dispatcher in chunks of which the last is
not empty; between the chunks anything may happen to the world.

Each chunk before the last gives a function and asks for nothing. The last one is seen as a call of the
method on all arguments in the world of that moment, which fails when the last argument has no
implementation there. When it has one that was listed, by extending the type or by extending the
protocol, and that has as many parameters, this is seen as a call of the implementation itself. So after
two histories that list the same implementation one sees the same of the method exactly when one sees
the same of the implementation. -/
theorem dispatcher_dispatches_late {p : Protocol} {name : String} {s : Signature}
    (hs : p.method? name = some s) (hn : 2 ≤ s.arity) (hlooks : LooksThrough watch)
    {args : List (Value C)} (hlength : args.length = s.arity)
    (hgiven : ∀ v ∈ args, v.isPlaceholder = false) :
    (∀ id, ∃ g : Func C, ((p.dispatcher name).run id).1 = some g ∧
      ∀ chunks last, chunks.flatten ++ last = args → last ≠ [] →
        (∀ before part, before ++ [part] <+: chunks → ∀ q, Fed (S := S) g before q →
          ∀ w : World C S, ∃ q', (call q part).Yields w (.ok (.func q')) (w.minted 1)) ∧
        (∀ q, Fed (S := S) g chunks q → ∀ (w : World C S) calls r w',
          (call q last).Shows watch w calls r w' ↔ (p.call name args).Shows watch w calls r w')) ∧
    (∀ w : World C S, w.registry.resolve (lastArgument args) name = none →
      (p.call name args).Shows watch w []
        (.error (.missingImplementation p.name name s.params (lastArgument args).typeName)) w) ∧
    (∀ (host : S) past w, History host past w → ∀ l,
      History.resolved? past (lastArgument args) name = some (.listed l) →
        l.function.arity = s.arity → ∀ calls r w',
          (p.call name args).Shows watch w calls r w' ↔
            (call l.function args).Shows watch w calls r w') ∧
    (∀ (host host' : S) past past' w w', History host past w → History host' past' w' → ∀ l l',
      History.resolved? past (lastArgument args) name = some (.listed l) →
        History.resolved? past' (lastArgument args) name = some (.listed l') →
          l'.function = l.function → l.function.arity = s.arity →
            (Action.SameSight watch (p.call name args) w (p.call name args) w' ↔
              Action.SameSight watch (call l.function args) w (call l.function args) w')) := by
  have hlisted : ∀ (host : S) past w, History host past w → ∀ l,
      History.resolved? past (lastArgument args) name = some (.listed l) →
        l.function.arity = s.arity → ∀ calls r w',
          (p.call name args).Shows watch w calls r w' ↔
            (call l.function args).Shows watch w calls r w' :=
    fun host past w hpast l hl harity =>
      Protocol.shows_call_iff_of_listed hlooks hs hgiven hpast hl (hlength.trans harity.symm)
  refine ⟨fun id => ?_, fun w => Protocol.shows_call_of_missing hs, hlisted, ?_⟩
  · obtain ⟨g, d, hg, hd, hcollects⟩ := Protocol.dispatcher_collects (C := C) hs hn id
    refine ⟨g, hg, fun chunks last hcut hlast => ⟨fun before part hcollected q hq => ?_, fun q hq => ?_⟩⟩
    · exact Protocol.yields_chunk hcollects hlength hgiven hcut hlast hcollected hq
    · exact Action.alike_eq_iff.mp
        (Protocol.alike_last_chunk hlooks hd hcollects hlength hgiven hcut hlast hq)
  · intro host host' past past' w w' hpast hpast' l l' hl hl' hfunction harity
    have hfirst := hlisted host past w hpast l hl harity
    have hsecond := hlisted host' past' w' hpast' l' hl' (hfunction ▸ harity)
    rw [hfunction] at hsecond
    simp only [Action.SameSight, hfirst, hsecond]

end

/-- A method of two parameters, a list last. -/
def putting : Protocol := ⟨"P", [⟨"put", ["x", "xs"]⟩]⟩

/-- An implementation of it, which appends to the list. -/
def put : Func Empty := ⟨0, "put", 2, .pushStep⟩

/-- What has happened when the implementation has been registered as it is. -/
def putAsItIs : List (Completed Empty) := [⟨.extendProtocol putting [(.list, [put])], .ok none⟩]

/-- What has happened when it has been registered so that it collects its arguments. -/
def putCollecting : List (Completed Empty) := [⟨.extendType .list [(putting, [put])], .ok none⟩]

/-- There is a world in which it has been registered as it is. -/
theorem exists_putAsItIs : ∃ w : World Empty Unit, History () putAsItIs w := by
  let w : World Empty Unit := World.initial ()
  have hraw : (Registration.extendProtocol putting [(.list, [put])]).action.Yields w (.ok none)
      { w with registry := w.registry.register .list "put" put } := ⟨0, rfl⟩
  exact ⟨_, .call .start (by simp [Registration.extended, TypeKey.Below]) hraw⟩

/-- There is a world in which it has been registered so that it collects its arguments. -/
theorem exists_putCollecting : ∃ w : World Empty Unit, History () putCollecting w := by
  let w : World Empty Unit := World.initial ()
  have hcurried : (Registration.extendType .list [(putting, [put])]).action.Yields w (.ok none)
      { w.minted 1 with
        registry := w.registry.register .list "put" ⟨w.nextId, "put", 2, .curried 2 put⟩ } := ⟨0, rfl⟩
  exact ⟨_, .call .start (by simp [Registration.extended, TypeKey.Below]) hcurried⟩

theorem resolved?_putAsItIs :
    History.resolved? putAsItIs (.list []) "put" = some (.listed ⟨.list, put, false⟩) := by
  simp [History.resolved?, History.origin?, History.listings, putAsItIs, Completed.listings,
    Registration.listings, Listing.last?, Value.typeKey, put]

theorem resolved?_putCollecting :
    History.resolved? putCollecting (.list []) "put" = some (.listed ⟨.list, put, true⟩) := by
  simp [History.resolved?, History.origin?, History.listings, putCollecting, Completed.listings,
    Registration.listings, Listing.last?, Value.typeKey, put]

theorem resolved?_start : History.resolved? ([] : List (Completed Empty)) (.list []) "put" = none := by
  have hnamed : Method.named? "put" = none := by decide
  simp [History.resolved?, History.origin?, History.listings, Listing.last?, Registry.provided?, hnamed]

/-- The value comes first and the list in a second chunk. At the start there is no implementation; when
there is one, it is called once on both, whichever way it was registered. -/
theorem dispatcher_dispatches_late_put :
    let watch : Func Empty → Bool := fun f => !f.handsOn
    let args : List (Value Empty) := [.bool true, .list []]
    let appended : Except Error (Value Empty) := .ok (.list [.bool true])
    ∃ (g q : Func Empty) (w₁ w₂ : World Empty Unit),
      ((putting.dispatcher "put").run 1).1 = some g ∧ Fed (S := Unit) g [[.bool true]] q ∧
      History () putAsItIs w₁ ∧ History () putCollecting w₂ ∧
      (call q [.list []]).Shows watch (World.initial ()) []
        (.error (.missingImplementation "P" "put" ["x", "xs"] "Array")) (World.initial ()) ∧
      (call q [.list []]).Shows watch w₁ [⟨put, args, appended⟩] appended w₁ ∧
      (call q [.list []]).Shows watch w₂ [⟨put, args, appended⟩] appended w₂ := by
  intro watch args appended
  have hgiven : ∀ v ∈ args, v.isPlaceholder = false := by simp [args, Value.isPlaceholder]
  have hlooks : LooksThrough watch := fun f hf => by simp [watch, hf]
  have hput : putting.method? "put" = some ⟨"put", ["x", "xs"]⟩ := by decide
  obtain ⟨hfed, hmissing, hlisted, -⟩ := dispatcher_dispatches_late (S := Unit) hput (by decide)
    hlooks rfl hgiven
  obtain ⟨g, hg, hchunks⟩ := hfed 1
  obtain ⟨hpart, hlast⟩ := hchunks [[.bool true]] [.list []] rfl (by simp)
  obtain ⟨q, hq⟩ := hpart [] [.bool true] (List.prefix_refl _) g .start (World.initial ())
  have hq : Fed (S := Unit) g [[.bool true]] q := Fed.start.chunk hq
  have hcall : ∀ w : World Empty Unit, (call put args).Shows watch w [⟨put, args, appended⟩] appended w :=
    fun w => ⟨2, rfl⟩
  obtain ⟨w₁, hpast₁⟩ := exists_putAsItIs
  obtain ⟨w₂, hpast₂⟩ := exists_putCollecting
  refine ⟨g, q, w₁, w₂, hg, hq, hpast₁, hpast₂, ?_, ?_, ?_⟩
  · have hstart : History () [] (World.initial (C := Empty) ()) := .start
    have hresolve := hstart.tells.resolve (.list []) "put"
    rw [resolved?_start] at hresolve
    exact (hlast q hq _ _ _ _).mpr (hmissing _ (Origin.eq_none_of_rel hresolve))
  · exact (hlast q hq _ _ _ _).mpr
      ((hlisted () _ _ hpast₁ _ resolved?_putAsItIs rfl _ _ _).mpr (hcall _))
  · exact (hlast q hq _ _ _ _).mpr
      ((hlisted () _ _ hpast₂ _ resolved?_putCollecting rfl _ _ _).mpr (hcall _))

/-- The function of a small program: it calls its own method again, with its last argument alone, and
gives a text when it gets no second argument. -/
inductive Reentering where
  | again

namespace Reentering

/-- The protocol of the method. -/
def protocol : Protocol := ⟨"P", [⟨"again", ["x", "s"]⟩]⟩

/-- The implementation, which has as many parameters as the method. -/
def implementation : Func Reentering := ⟨0, "again", 2, .host .again⟩

instance : Embedding Reentering Unit where
  body
    | .again, args =>
      if (argument args 1).truthy then protocol.call "again" [argument args 1]
      else return .text "one"

/-- The world in which the method resolves to a function for truth values. -/
def registered (w : World Reentering Unit) (g : Func Reentering) (minted : Nat) :
    World Reentering Unit :=
  { w.minted minted with registry := w.registry.register .bool "again" g }

/-- The function that collects the arguments of the implementation. -/
def collecting (id : Nat) : Func Reentering := ⟨id, "again", 2, .curried 2 implementation⟩

/-- Extending the protocol registers the implementation as it is. -/
theorem yields_extendProtocol (w : World Reentering Unit) :
    (extendProtocol protocol [(.bool, [implementation])]).Yields w (.ok ())
      (registered w implementation 0) :=
  ⟨0, rfl⟩

/-- Extending the type registers it so that it collects its arguments. -/
theorem yields_extendType (w : World Reentering Unit) :
    (extendType .bool [(protocol, [implementation])]).Yields w (.ok ())
      (registered w (collecting w.nextId) 1) :=
  ⟨0, rfl⟩

variable {w : World Reentering Unit} {g : Func Reentering} {minted : Nat}

/-- There a call of the method on a truth value is a call of the function. -/
theorem yields_call_iff {args : List (Value Reentering)} (hlast : lastArgument args = .bool true)
    (r : Except Error (Value Reentering)) (w' : World Reentering Unit) :
    (protocol.call "again" args).Yields (registered w g minted) r w' ↔
      (call g args).Yields (registered w g minted) r w' := by
  refine Protocol.yields_call_iff (by decide) ?_ r w'
  simp [hlast, Registry.resolve, registered, Registry.lookup_register, Value.typeKey]

/-- The arguments of the two calls. -/
def both : List (Value Reentering) := [.bool true, .bool true]

theorem both_given : ∀ v ∈ both, v.isPlaceholder = false := by
  simp [both, Value.isPlaceholder]

/-- Called on both, the implementation calls the method on the last one. -/
theorem body_both : implementation.body (S := Unit) both = protocol.call "again" [.bool true] := rfl

/-- Registered as it is, the implementation is then called on this one and gives the text. -/
theorem yields_raw : (protocol.call "again" both).Yields (registered w implementation 0)
    (.ok (.text "one")) (registered w implementation 0) := by
  have hagain : (protocol.call "again" [.bool true]).Yields (registered w implementation 0)
      (.ok (.text "one")) (registered w implementation 0) :=
    (yields_call_iff rfl _ _).mpr (Action.Yields.call (Action.yields_pure _ _))
  rw [← body_both] at hagain
  exact (yields_call_iff rfl _ _).mpr hagain.call

/-- Registered so that it collects two arguments, it is not called then: the one argument is kept. -/
theorem yields_curried (hg : Currying.Collects 2 implementation [] g) (w : World Reentering Unit)
    (minted : Nat) :
    ∃ q w', (protocol.call "again" both).Yields (registered w g minted) (.ok (.func q)) w' := by
  have hkept : ∃ q, Currying.Collects 2 implementation [.bool true] q ∧
      (g.body [.bool true]).Yields (registered w g minted) (.ok (.func q))
        ((registered w g minted).minted 1) :=
    hg.yields_body (fun v hv => both_given v (List.mem_cons_of_mem _ hv)) (by decide) _
  have hcomplete : g.body (S := Unit) both = call implementation both :=
    hg.body_of_complete both_given rfl
  obtain ⟨q, -, hkept⟩ := hkept
  have hagain := (yields_call_iff rfl _ _).mpr hkept.call
  rw [← body_both] at hagain
  have hboth := hagain.call
  rw [← hcomplete] at hboth
  exact ⟨q, _, (yields_call_iff rfl _ _).mpr hboth.call⟩

end Reentering

/-- Whether an implementation was registered as it is or so that it collects its arguments can make a
difference: one that calls its method again with fewer arguments gets them in the first case and gives a
function in the second one. -/
theorem raw_and_curried_differ :
    ¬ ∀ (p : Protocol) (s : Signature) (f : Func Reentering) (args : List (Value Reentering))
        (w w₁ w₂ : World Reentering Unit),
      p.method? f.name = some s → 2 ≤ s.arity → f.arity = s.arity → args.length = s.arity →
        (∀ v ∈ args, v.isPlaceholder = false) →
          (extendProtocol p [((lastArgument args).typeKey, [f])]).Yields w (.ok ()) w₁ →
            (extendType (lastArgument args).typeKey [(p, [f])]).Yields w (.ok ()) w₂ →
              ∀ r, (∃ w', (p.call f.name args).Yields w₁ r w') ↔
                ∃ w', (p.call f.name args).Yields w₂ r w' := by
  intro h
  let w : World Reentering Unit := World.initial ()
  have hsame := h Reentering.protocol ⟨"again", ["x", "s"]⟩ Reentering.implementation
    Reentering.both w _ _ (by decide) (by decide) rfl rfl Reentering.both_given
    (Reentering.yields_extendProtocol w) (Reentering.yields_extendType w)
  obtain ⟨w', hraw⟩ := (hsame (.ok (.text "one"))).mp ⟨_, Reentering.yields_raw⟩
  have hcollects : Currying.Collects 2 Reentering.implementation []
      (Reentering.collecting w.nextId) := Or.inr ⟨rfl, rfl⟩
  obtain ⟨q, w'', hcurried⟩ := Reentering.yields_curried hcollects w 1
  obtain ⟨hresult, -⟩ := hraw.unique hcurried
  cases hresult

end DynamicDispatch
