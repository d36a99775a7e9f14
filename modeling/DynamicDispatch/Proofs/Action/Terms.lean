import DynamicDispatch.Proofs.Action.Observation
import DynamicDispatch.Proofs.Registry.Listing

/-!
# What actions are held to

Terms say which requests an action may make, what it may take for granted of the answers, what holds
of the world at any time and how one write may change it. `Terms.Keeps` says that an action keeps them
and ends well; it is kept by sequences, so that it is derived for a composed action from its parts,
and each operation needs one lemma that says what it is held to. If moreover every function that is
not watched keeps the terms, they hold of every run, and whatever the calls of the watched functions
add up to can be read off the calls that are seen.
-/

namespace DynamicDispatch

variable {C S α β : Type}

/-- What actions are held to. -/
structure Terms (C S : Type) where
  /-- The requests that may be made. -/
  asks : Request C → Prop
  /-- What may be taken for granted of an answer. -/
  answers : (q : Request C) → q.Answer → Prop
  /-- What holds of the world. -/
  worlds : World C S → Prop
  /-- How a write may change the world. -/
  moves : World C S → World C S → Prop

namespace Terms

variable {T : Terms C S} {good : α → Prop} {good' : β → Prop}

/-- An action that is run in a world keeps the terms, and its result is good unless it is an error. -/
def KeepsAt (T : Terms C S) (good : α → Prop) : Action C S α → World C S → Prop
  | .done r, _ => ∀ a, r = .ok a → good a
  | .ask q next, _ =>
    T.asks q ∧ ∀ r w, T.worlds w → (∀ a, r = .ok a → T.answers q a) → KeepsAt T good (next r) w
  | .read next, w => KeepsAt T good (next w) w
  | .write w' p, w => T.moves w w' ∧ T.worlds w' ∧ KeepsAt T good p w'

/-- An action keeps the terms wherever it is run, and its result is good unless it is an error. -/
def Keeps (T : Terms C S) (good : α → Prop) (p : Action C S α) : Prop :=
  ∀ w, T.worlds w → T.KeepsAt good p w

/-- A sequence keeps the terms when its parts do. -/
theorem KeepsAt.bind {p : Action C S α} {f : α → Action C S β} {w : World C S} (hw : T.worlds w)
    (hp : T.KeepsAt good p w) (hf : ∀ a, good a → T.Keeps good' (f a)) :
    T.KeepsAt good' (p >>= f) w := by
  change T.KeepsAt good' (p.bind f) w
  induction p generalizing w with
  | done r =>
    cases r with
    | ok a => exact hf a (hp a rfl) w hw
    | error e => exact fun a h => by cases h
  | ask q next ih => exact ⟨hp.1, fun r w' hw' hr => ih r hw' (hp.2 r w' hw' hr)⟩
  | read next ih => exact ih w hw hp
  | write w' p ih => exact ⟨hp.1, hp.2.1, ih hp.2.1 hp.2.2⟩

/-- A weaker promise is kept as well. -/
theorem KeepsAt.mono {good' : α → Prop} {p : Action C S α} {w : World C S}
    (hp : T.KeepsAt good p w) (h : ∀ a, good a → good' a) : T.KeepsAt good' p w := by
  induction p generalizing w with
  | done r => exact fun a ha => h a (hp a ha)
  | ask q next ih => exact ⟨hp.1, fun r w' hw' hr => ih r (hp.2 r w' hw' hr)⟩
  | read next ih => exact ih w hp
  | write w' p ih => exact ⟨hp.1, hp.2.1, ih hp.2.2⟩

/-- The result as a value is good when it is an error or a good result. -/
theorem KeepsAt.attempt {p : Action C S α} {w : World C S} (hp : T.KeepsAt good p w) :
    T.KeepsAt (fun r => ∀ a, r = .ok a → good a) p.attempt w := by
  induction p generalizing w with
  | done r => exact fun r' h => Except.ok.inj h ▸ hp
  | ask q next ih => exact ⟨hp.1, fun r w' hw' hr => ih r (hp.2 r w' hw' hr)⟩
  | read next ih => exact ih w hp
  | write w' p ih => exact ⟨hp.1, hp.2.1, ih hp.2.2⟩

namespace Keeps

theorem pure {a : α} (h : good a) : T.Keeps good (Pure.pure a : Action C S α) :=
  fun _ _ _ ha => Except.ok.inj ha ▸ h

theorem fail (e : Error) : T.Keeps good (Action.fail e : Action C S α) :=
  fun _ _ _ ha => by cases ha

theorem done {r : Except Error α} (h : ∀ a, r = .ok a → good a) :
    T.Keeps good (.done r : Action C S α) :=
  fun _ _ => h

theorem bind {p : Action C S α} {f : α → Action C S β} (hp : T.Keeps good p)
    (hf : ∀ a, good a → T.Keeps good' (f a)) : T.Keeps good' (p >>= f) :=
  fun w hw => (hp w hw).bind hw hf

theorem mono {good' : α → Prop} {p : Action C S α} (hp : T.Keeps good p)
    (h : ∀ a, good a → good' a) : T.Keeps good' p :=
  fun w hw => (hp w hw).mono h

theorem attempt {p : Action C S α} (hp : T.Keeps good p) :
    T.Keeps (fun r => ∀ a, r = .ok a → good a) p.attempt :=
  fun w hw => (hp w hw).attempt

/-- A request that may be made is answered as may be taken for granted. -/
theorem request {q : Request C} (h : T.asks q) : T.Keeps (T.answers q) (Action.request q) :=
  fun _ _ => ⟨h, fun _ _ _ hr => hr⟩

/-- What goes on from the current world. -/
theorem world_bind {f : World C S → Action C S α} (hf : ∀ w, T.worlds w → T.KeepsAt good (f w) w) :
    T.Keeps good (Action.world >>= f) :=
  fun w hw => hf w hw

/-- A change of the world that the terms admit. -/
theorem modify {change : World C S → World C S}
    (h : ∀ w, T.worlds w → T.moves w (change w) ∧ T.worlds (change w)) :
    T.Keeps (fun _ => True) (Action.modify change) :=
  fun w hw => ⟨(h w hw).1, (h w hw).2, fun _ _ => trivial⟩

/-- An action for each value of a list. -/
theorem mapM {f : α → Action C S β} {as : List α} (hf : ∀ a ∈ as, T.Keeps good' (f a)) :
    T.Keeps (fun bs => ∀ b ∈ bs, good' b) (as.mapM f) := by
  induction as with
  | nil => exact pure fun b hb => absurd hb List.not_mem_nil
  | cons a as ih =>
    obtain ⟨ha, has⟩ := List.forall_mem_cons.mp hf
    rw [List.mapM_cons]
    exact ha.bind fun b hb => (ih has).bind fun bs hbs => pure (List.forall_mem_cons.mpr ⟨hb, hbs⟩)

/-- An action for each value of a list, of whose results nothing is needed. -/
theorem mapM_any {f : α → Action C S β} {as : List α}
    (hf : ∀ a ∈ as, T.Keeps (fun _ => True) (f a)) : T.Keeps (fun _ => True) (as.mapM f) :=
  (mapM hf).mono fun _ _ => trivial

/-- An action for each value of a list, which goes on from the result so far. -/
theorem foldlM {f : β → α → Action C S β} {as : List α} {b : β} (hb : good' b)
    (hf : ∀ b a, good' b → a ∈ as → T.Keeps good' (f b a)) : T.Keeps good' (as.foldlM f b) := by
  induction as generalizing b with
  | nil => exact pure hb
  | cons a as ih =>
    exact (hf b a hb List.mem_cons_self).bind fun b hb =>
      ih hb fun b a hb ha => hf b a hb (List.mem_cons_of_mem _ ha)

/-- An action for each value of a list, for its effect alone. -/
theorem forM {f : α → Action C S PUnit} {as : List α}
    (hf : ∀ a ∈ as, T.Keeps (fun _ => True) (f a)) : T.Keeps (fun _ => True) (as.forM f) := by
  induction as with
  | nil => exact pure trivial
  | cons a as ih =>
    obtain ⟨ha, has⟩ := List.forall_mem_cons.mp hf
    exact ha.bind fun _ _ => ih has

end Keeps

/-- Identities may be handed out at any time. -/
def Mints (T : Terms C S) : Prop :=
  ∀ w n, T.worlds w → w.nextId ≤ n →
    T.moves w { w with nextId := n } ∧ T.worlds { w with nextId := n }

/-- Handing out identities, which the result is good for. -/
theorem Mints.keeps_minting (hT : T.Mints) {x : StateM Nat α} (hx : Grows x)
    (hgood : ∀ w, T.worlds w → good (x.run w.nextId).1) : T.Keeps good (Action.minting x) :=
  fun w hw => ⟨(hT w _ hw (hx _)).1, (hT w _ hw (hx _)).2, fun _ ha => Except.ok.inj ha ▸ hgood w hw⟩

/-- The terms that ask nothing of an action, so that only its result counts. -/
def any : Terms C S := ⟨fun _ => True, fun _ _ => True, fun _ => True, fun _ _ => True⟩

/-- Every action keeps the terms that ask nothing. -/
theorem any_keepsAt (p : Action C S α) (w : World C S) : any.KeepsAt (fun _ => True) p w := by
  induction p generalizing w with
  | done r => exact fun _ _ => trivial
  | ask q next ih => exact ⟨trivial, fun r w _ _ => ih r w⟩
  | read next ih => exact ih w w
  | write w' p ih => exact ⟨trivial, trivial, ih w'⟩

/-- Every action that is composed of others may be. -/
theorem Keeps.any (p : Action C S α) : Terms.any.Keeps (fun _ => True) p := fun w _ => any_keepsAt p w

section Upheld

variable [Embedding C S]

/-- The terms hold of every run: functions that are not watched keep them, and so does every other
request; watched calls that are fair, and writes, are accounted for. -/
structure Upheld (T : Terms C S) (watch : Func C → Bool) (fair : SeenCall C → Prop)
    (account : List (SeenCall C) → World C S → World C S → Prop) : Prop where
  /-- Nothing seen, nothing changed. -/
  nil : ∀ w, account [] w w
  /-- What is accounted for one after the other. -/
  append : ∀ {calls calls' w w' w''}, account calls w w' → account calls' w' w'' →
    account (calls ++ calls') w w''
  /-- A write. -/
  move : ∀ {w w'}, T.worlds w → T.moves w w' → T.worlds w' → account [] w w'
  /-- What is asked for beside watched calls. -/
  keeps : ∀ q, T.asks q → (∀ f args, q = .call f args → watch f = false) →
    T.Keeps (T.answers q) q.action
  /-- A watched call. -/
  seen : ∀ {f args inside r} {w w' : World C S}, T.asks (.call f args) → watch f = true →
    T.worlds w → (f.body args).Shows watch w inside r w' → fair ⟨f, args, r⟩ →
      T.worlds w' ∧ account [⟨f, args, r⟩] w w' ∧ ∀ v, r = .ok v → T.answers (.call f args) v

variable {watch : Func C → Bool} {fair : SeenCall C → Prop}
  {account : List (SeenCall C) → World C S → World C S → Prop}

/-- What is seen from a world keeps the terms: the world is as it should be, the calls account for what
has changed, and the result is good unless it is an error. -/
def Accounted (T : Terms C S) (account : List (SeenCall C) → World C S → World C S → Prop)
    (good : α → Prop) (w : World C S) (s : Sight C S α) : Prop :=
  T.worlds s.world ∧ account s.calls w s.world ∧ ∀ a, s.result = .ok a → good a

/-- If the terms hold of what is seen of every request, they hold of what is seen of an action. -/
theorem Upheld.accounted (h : T.Upheld watch fair account) {seen : Observing C S}
    (hseen : ∀ q w s, T.asks q → T.worlds w → seen q w = some s → (∀ c ∈ s.calls, fair c) →
      T.Accounted account (T.answers q) w s)
    {p : Action C S α} {w : World C S} {s : Sight C S α} (hw : T.worlds w) (hp : T.KeepsAt good p w)
    (hobserve : p.observe seen w = some s) (hfair : ∀ c ∈ s.calls, fair c) :
    T.Accounted account good w s := by
  induction p generalizing w s with
  | done r =>
    obtain rfl := Option.some.inj hobserve
    exact ⟨hw, h.nil w, hp⟩
  | ask q next ih =>
    simp only [Action.observe] at hobserve
    cases hq : seen q w with
    | none => simp [hq] at hobserve
    | some t =>
      rw [hq] at hobserve
      obtain ⟨u, hu, rfl⟩ := Option.map_eq_some_iff.mp hobserve
      obtain ⟨ht, hu'⟩ := List.forall_mem_append.mp hfair
      obtain ⟨hworld, haccount, hanswer⟩ := hseen q w t hp.1 hw hq ht
      obtain ⟨hlast, hrest, hgood⟩ := ih t.result hworld (hp.2 _ _ hworld hanswer) hu hu'
      exact ⟨hlast, h.append haccount hrest, hgood⟩
  | read next ih => exact ih w hw hp hobserve hfair
  | write w' p ih =>
    obtain ⟨hmove, hw', hp⟩ := hp
    obtain ⟨hlast, hrest, hgood⟩ := ih hw' hp hobserve hfair
    exact ⟨hlast, h.append (h.move hw hmove hw') hrest, hgood⟩

/-- The terms hold of what is seen of every request, at every depth, as far as the calls are fair. -/
theorem Upheld.accounted_observed (h : T.Upheld watch fair account) (depth : Nat) (q : Request C)
    (w : World C S) (s : Sight C S q.Answer) (hq : T.asks q) (hw : T.worlds w)
    (hobserve : observed watch depth q w = some s) (hfair : ∀ c ∈ s.calls, fair c) :
    T.Accounted account (T.answers q) w s := by
  induction depth generalizing q w s with
  | zero => cases hobserve
  | succ depth ih =>
    obtain ⟨t, ht, rfl⟩ := Option.map_eq_some_iff.mp hobserve
    cases q with
    | call f args =>
      by_cases hwatch : watch f = true
      · simp only [Request.sight, if_pos hwatch] at hfair ⊢
        exact h.seen hq hwatch hw ⟨depth, ht⟩ (hfair _ (List.mem_singleton.mpr rfl))
      · simp only [Request.sight, if_neg hwatch] at hfair ⊢
        have hkeeps := h.keeps (.call f args) hq fun g args' heq => by
          cases heq
          simpa using hwatch
        exact h.accounted ih hw (hkeeps w hw) ht hfair
    | _ => exact h.accounted ih hw (h.keeps _ hq (fun _ _ heq => by cases heq) w hw) ht hfair

/-- The terms hold of what an action that keeps them shows, as far as the calls are fair. -/
theorem Upheld.shows (h : T.Upheld watch fair account) {p : Action C S α} {w w' : World C S}
    {calls : List (SeenCall C)} {r : Except Error α} (hw : T.worlds w) (hp : T.KeepsAt good p w)
    (hshows : p.Shows watch w calls r w') (hfair : ∀ c ∈ calls, fair c) :
    T.worlds w' ∧ account calls w w' ∧ ∀ a, r = .ok a → good a := by
  obtain ⟨depth, hobserve⟩ := hshows
  exact h.accounted (h.accounted_observed depth) hw hp hobserve hfair

/-- What an action is shown to end with, whatever it asks for, it yields. -/
theorem Keeps.yields {p : Action C S α} (hp : Terms.any.Keeps good p) {w w' : World C S} {a : α}
    (h : p.Yields w (.ok a) w') : good a := by
  have hupheld : (Terms.any (C := C) (S := S)).Upheld (fun _ => true) (fun _ => True)
      fun _ _ _ => True :=
    ⟨fun _ => trivial, fun _ _ => trivial, fun _ _ _ => trivial, fun q _ _ => .any q.action,
      fun _ _ _ _ _ => ⟨trivial, trivial, fun _ _ => trivial⟩⟩
  obtain ⟨calls, hshows⟩ := (Action.yields_iff_shows fun _ => true).mp h
  exact (hupheld.shows trivial (hp w trivial) hshows fun _ _ => trivial).2.2 a rfl

end Upheld

end Terms

end DynamicDispatch
