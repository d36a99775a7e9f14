import DynamicDispatch.Proofs.Action.Trace
import DynamicDispatch.Proofs.Task.Sparing

/-!
# The first resolution settles a run

A run that others settle has a cell of its own and two resolvers for it. Functions can be passed on,
copied and called from anywhere, during the procedure or after it, so the calls of the resolvers are
counted where they happen: what is seen of any action are exactly these calls, in order. Their first
one settles the cell, and everything after it changes nothing.
-/

namespace DynamicDispatch

variable {C S α : Type}

open DynamicDispatch.Action (Spares)

/-- The outcome that a call of a resolver stands for. -/
def SeenCall.outcome? (c : SeenCall C) : Option (Outcome (Value C)) :=
  match c.callee.code with
  | .resolver _ side => some ⟨side, argument c.args 0⟩
  | _ => none

/-- The outcomes that the calls of resolvers stand for, in order. -/
def resolutions (calls : List (SeenCall C)) : List (Outcome (Value C)) :=
  calls.filterMap SeenCall.outcome?

/-- What a procedure resolves its run with by ending: a failure, when it ends with an error. -/
def endings : Except Error (Value C) → List (Outcome (Value C))
  | .ok _ => []
  | .error e => [⟨.failure, failureValue e⟩]

/-- The world in which a cell is settled, with the outcome given unless it was settled before. -/
def World.settled (w : World C S) (cell : Nat) (o : Outcome (Value C)) : World C S :=
  if (w.cells.get? cell).isSome then w else { w with cells := w.cells.insert cell o }

/-- The first outcome counts. -/
theorem World.get?_settled (w : World C S) (cell : Nat) (o : Outcome (Value C)) :
    (w.settled cell o).cells.get? cell = (w.cells.get? cell).or (some o) := by
  unfold settled
  cases hcell : w.cells.get? cell with
  | none => simp
  | some first => simp [hcell]

/-- Other cells are left alone. -/
theorem World.get?_settled_of_ne (w : World C S) {cell other : Nat} (h : other ≠ cell)
    (o : Outcome (Value C)) : (w.settled cell o).cells.get? other = w.cells.get? other := by
  unfold settled
  split
  · rfl
  · simp [Table.get?_insert, h.symm]

theorem World.nextId_settled (w : World C S) (cell : Nat) (o : Outcome (Value C)) :
    (w.settled cell o).nextId = w.nextId := by
  unfold settled
  split <;> rfl

/-- A cell that is settled stays as it is. -/
theorem World.settled_of_isSome {w : World C S} {cell : Nat} (h : (w.cells.get? cell).isSome = true)
    (o : Outcome (Value C)) : w.settled cell o = w :=
  if_pos h

/-- What a run's procedure leaves when it has ended with a result. -/
def World.ended (w : World C S) (cell : Nat) : Except Error (Value C) → World C S
  | .ok _ => w
  | .error e => w.settled cell ⟨.failure, failureValue e⟩

/-- The end of a procedure resolves the run, when it is an error. -/
theorem World.get?_ended (w : World C S) (cell : Nat) (result : Except Error (Value C)) :
    (w.ended cell result).cells.get? cell = (w.cells.get? cell).or (endings result).head? := by
  cases result with
  | ok v => exact Option.or_none.symm
  | error e => exact w.get?_settled cell _

theorem World.nextId_ended (w : World C S) (cell : Nat) (result : Except Error (Value C)) :
    (w.ended cell result).nextId = w.nextId := by
  cases result with
  | ok v => rfl
  | error e => exact w.nextId_settled cell _

variable [Embedding C S] {watch : Func C → Bool} {cell : Nat}

/-- A resolver settles its cell. -/
theorem shows_resolver {g : Func C} {side : Side} (hcode : g.code = .resolver cell side)
    (args : List (Value C)) (w : World C S) :
    (g.body args).Shows watch w [] (.ok .nil) (w.settled cell ⟨side, argument args 0⟩) := by
  simp only [Callable.body, hcode]
  exact ⟨0, rfl⟩

theorem yields_resolver {g : Func C} {side : Side} (hcode : g.code = .resolver cell side)
    (args : List (Value C)) (w : World C S) :
    (g.body args).Yields w (.ok .nil) (w.settled cell ⟨side, argument args 0⟩) :=
  (Action.yields_iff_shows (resolves cell)).mpr ⟨[], shows_resolver hcode args w⟩

/-- A function that settles a cell is one of its two resolvers. -/
theorem resolves_iff {g : Func C} : resolves cell g = true ↔ ∃ side, g.code = .resolver cell side := by
  unfold resolves
  constructor
  · intro h
    split at h
    · rename_i other side hcode
      exact ⟨side, by simpa using (beq_iff_eq.mp h) ▸ hcode⟩
    · cases h
  · rintro ⟨side, hcode⟩
    simp [hcode]

/-- What happened to a cell by some calls of its resolvers: the first one settled it, unless it was
settled before. -/
def Resolved (cell : Nat) (calls : List (SeenCall C)) (w w' : World C S) : Prop :=
  w'.cells.get? cell = (w.cells.get? cell).or (resolutions calls).head?

/-- Whatever runs, the calls of its resolvers account for what happens to a cell. -/
theorem upheld_sparing (hhost : HostSpares C S) (cell : Nat) :
    (Terms.sparing (C := C) (S := S) cell).Upheld (resolves cell) (fun _ => True) (Resolved cell) where
  nil _ := Option.or_none.symm
  append {calls calls' w w' w''} h h' := by
    have hsplit : resolutions (calls ++ calls') = resolutions calls ++ resolutions calls' :=
      List.filterMap_append
    rw [Resolved, h', h, hsplit, List.head?_append, Option.or_assoc]
  move _ hmove _ := hmove.trans Option.or_none.symm
  keeps q _ hq := spares_action hhost q hq
  seen {f args inside r w w'} _ hresolves hw hshows _ := by
    obtain ⟨side, hcode⟩ := resolves_iff.mp hresolves
    obtain ⟨-, -, rfl⟩ := hshows.unique (shows_resolver hcode args w)
    refine ⟨Nat.lt_of_lt_of_eq hw (w.nextId_settled cell _).symm, ?_, fun _ _ => trivial⟩
    rw [Resolved, World.get?_settled]
    simp [resolutions, SeenCall.outcome?, hcode]

/-- What happens from one world to another one as far as a run is concerned: any actions, one after the
other, that leave the cell of the run alone apart from the calls of its resolvers, which are listed. -/
inductive Elapses (cell : Nat) : World C S → List (SeenCall C) → World C S → Prop
  | none (w : World C S) : Elapses cell w [] w
  | step {α : Type} {p : Action C S α} {w w' w'' : World C S} {calls more : List (SeenCall C)}
      {r : Except Error α} (earlier : Elapses cell w calls w') (spares : Spares cell p)
      (shows : p.Shows (resolves cell) w' more r w'') : Elapses cell w (calls ++ more) w''

/-- The calls of its resolvers account for what has happened to a cell. -/
theorem Elapses.resolved (hhost : HostSpares C S) {w w' : World C S} {calls : List (SeenCall C)}
    (h : Elapses cell w calls w') (hw : cell < w.nextId) :
    cell < w'.nextId ∧ Resolved cell calls w w' := by
  have hupheld := upheld_sparing hhost cell
  induction h with
  | none => exact ⟨hw, hupheld.nil _⟩
  | @step α p w w' w'' calls more r earlier spares shows ih =>
    obtain ⟨hw', hresolved⟩ := ih hw
    obtain ⟨hw'', hmore, -⟩ := hupheld.shows hw' (spares w' hw') shows fun _ _ => trivial
    exact ⟨hw'', hupheld.append hresolved hmore⟩

/-- Of a run that waits for a cell the first resolution counts, of those made before and those that are
made from a world on, whatever happens. -/
structure FirstCounts (cell : Nat) (made : List (Outcome (Value C))) (w : World C S) : Prop where
  /-- With a resolution the run has the first one as its outcome. -/
  settles : ∀ later w' o, Elapses cell w later w' → (made ++ resolutions later).head? = some o →
    (Run.awaiting cell).canAdvance w' = true ∧
      (Run.awaiting cell).poll.Yields w' (.ok (.settled o)) w'
  /-- Without a resolution it goes on waiting. -/
  waits : ∀ later w', Elapses cell w later w' → made ++ resolutions later = [] →
    (Run.awaiting cell).canAdvance w' = false ∧
      (Run.awaiting cell).poll.Yields w' (.ok (.pending (.awaiting cell))) w'
  /-- A call of a resolver that is not the first one changes nothing. -/
  ignores : ∀ later w' g args, Elapses cell w later w' → made ++ resolutions later ≠ [] →
    resolves cell g = true → (call g args).Yields w' (.ok .nil) w'
  /-- A run that is started later has another cell. -/
  apart : ∀ later w', Elapses cell w later w' → w'.nextId ≠ cell

/-- A cell that is in use and holds the first of the resolutions made so far. -/
theorem firstCounts (hhost : HostSpares C S) {made : List (Outcome (Value C))} {w : World C S}
    (hw : cell < w.nextId) (hcell : w.cells.get? cell = made.head?) : FirstCounts cell made w := by
  have hlater : ∀ {later w'}, Elapses cell w later w' →
      w'.cells.get? cell = (made ++ resolutions later).head? := by
    intro later w' helapses
    rw [(helapses.resolved hhost hw).2, hcell, List.head?_append]
  refine ⟨fun later w' o helapses ho => ?_, fun later w' helapses hnone => ?_,
    fun later w' g args helapses hsome hresolves => ?_, fun later w' helapses => ?_⟩
  · have hsettled := (hlater helapses).trans ho
    refine ⟨by simp [Run.canAdvance, hsettled], ?_⟩
    exact Action.yields_world_bind (by rw [hsettled]; exact Action.yields_pure _ _)
  · have hopen : w'.cells.get? cell = none := by rw [hlater helapses, hnone]; rfl
    refine ⟨by simp [Run.canAdvance, hopen], ?_⟩
    exact Action.yields_world_bind (by rw [hopen]; exact Action.yields_pure _ _)
  · obtain ⟨side, hcode⟩ := resolves_iff.mp hresolves
    have hsettled : (w'.cells.get? cell).isSome = true := by
      rw [hlater helapses, List.isSome_head?]
      exact hsome
    have hyields := yields_resolver hcode args w'
    rw [World.settled_of_isSome hsettled] at hyields
    exact hyields.call
  · exact Nat.ne_of_gt (helapses.resolved hhost hw).1

/-- The resolvers of a run, for failure and for success, as the procedure gets them. -/
def resolversOf (cell : Nat) : List (Value C) :=
  [.func ⟨cell + 1, "fail", 1, .resolver cell .failure⟩,
    .func ⟨cell + 2, "succeed", 1, .resolver cell .success⟩]

/-- Starting a task with a procedure calls the procedure once, on two resolvers of a new cell, and leaves
a run that waits for this cell. -/
theorem shows_start_procedure_iff {f : Func C} {w w' : World C S} {during : List (SeenCall C)}
    {r : Except Error (Run C)} :
    (Recipe.procedure f).start.Shows watch w during r w' ↔
      ∃ result w₁, (call f (resolversOf w.nextId)).Shows watch (w.minted 3) during result w₁ ∧
        r = .ok (.awaiting w.nextId) ∧ w' = w₁.ended w.nextId result := by
  let finish : Except Error (Value C) → Action C S (Run C)
    | .ok _ => pure (.awaiting w.nextId)
    | .error e => do
      settle w.nextId ⟨.failure, failureValue e⟩
      return .awaiting w.nextId
  have hfinish : ∀ (result : Except Error (Value C)) (w₁ : World C S) calls r w',
      (finish result).Shows watch w₁ calls r w' ↔
        calls = [] ∧ r = .ok (.awaiting w.nextId) ∧ w' = w₁.ended w.nextId result := by
    intro result w₁ calls r w'
    cases result with
    | ok v => exact Action.shows_pure_iff
    | error e =>
      change (Action.done (.ok (.awaiting w.nextId)) : Action C S (Run C)).Shows watch
        (w₁.ended w.nextId (.error e)) calls r w' ↔ _
      exact Action.shows_done_iff
  -- Cell and resolvers take three identities before the procedure is called.
  change ((call f (resolversOf w.nextId)).attempt >>= finish).Shows watch (w.minted 3) during r w' ↔ _
  constructor
  · intro h
    rcases Action.shows_bind_iff.mp h with ⟨calls, a, w₁, more, hcall, hend, rfl⟩ | ⟨e, hcall, -⟩
    · obtain ⟨result, ha, hcall⟩ := Action.shows_attempt_iff.mp hcall
      obtain rfl := Except.ok.inj ha
      obtain ⟨rfl, hr, hw⟩ := (hfinish a w₁ more r w').mp hend
      exact ⟨a, w₁, (List.append_nil calls).symm ▸ hcall, hr, hw⟩
    · obtain ⟨result, he, -⟩ := Action.shows_attempt_iff.mp hcall
      cases he
  · rintro ⟨result, w₁, hcall, hr, hw⟩
    have h := Action.Shows.bind (Action.shows_attempt_iff.mpr ⟨result, rfl, hcall⟩)
      ((hfinish result w₁ [] r w').mpr ⟨rfl, hr, hw⟩)
    rwa [List.append_nil] at h

/-- Settling a cell with several outcomes keeps the first. -/
theorem yields_settle_all (cell : Nat) (outcomes : List (Outcome (Value C))) (w : World C S) :
    ∃ w', (outcomes.forM (settle cell)).Yields w (.ok ()) w' ∧ w'.nextId = w.nextId ∧
      w'.cells.get? cell = (w.cells.get? cell).or outcomes.head? := by
  induction outcomes generalizing w with
  | nil => exact ⟨w, Action.yields_pure () w, rfl, Option.or_none.symm⟩
  | cons o outcomes ih =>
    obtain ⟨w', hyields, hnext, hcell⟩ := ih (w.settled cell o)
    have hfirst : (settle cell o).Yields w (.ok ()) (w.settled cell o) := ⟨0, rfl⟩
    refine ⟨w', hfirst.bind hyields, hnext.trans (w.nextId_settled cell o), ?_⟩
    rw [hcell, World.get?_settled, Option.or_assoc]
    rfl

/-- The first resolution settles a run: of a task with a procedure, whatever the procedure does with
its resolvers and however it ends, and of a task that resolves its runs with outcomes of its own.

During the procedure and in everything that happens later the calls of the run's resolvers are counted
in order, wherever they are made, and a procedure that ends with an error counts as a call of the
failing one at that moment. The run then has the first of these resolutions as its outcome, waits as
long as there is none, and every later call changes nothing at all. A call of a resolver leaves the
cells of other runs alone, and a run that is started later has another cell. -/
theorem first_resolution_settles (hhost : HostSpares C S) {w : World C S}
    (hfresh : w.cells.get? w.nextId = none) :
    (∀ f during r w', (Recipe.procedure f).start.Shows (resolves w.nextId) w during r w' ↔
      ∃ result w₁,
        (call f (resolversOf w.nextId)).Shows (resolves w.nextId) (w.minted 3) during result w₁ ∧
          r = .ok (.awaiting w.nextId) ∧ w' = w₁.ended w.nextId result) ∧
    (∀ f during result w₁,
      (call f (resolversOf w.nextId)).Shows (resolves w.nextId) (w.minted 3) during result w₁ →
        FirstCounts w.nextId (resolutions during ++ endings result) (w₁.ended w.nextId result)) ∧
    (∀ outcomes, ∃ w', (Recipe.resolving outcomes).start.Yields w (.ok (.awaiting w.nextId)) w' ∧
      FirstCounts w.nextId outcomes w') ∧
    (∀ g args (u u' : World C S) r, resolves w.nextId g = true → (call g args).Yields u r u' →
      r = .ok .nil ∧ ∀ other, other ≠ w.nextId → u'.cells.get? other = u.cells.get? other) := by
  refine ⟨fun f during r w' => shows_start_procedure_iff, fun f during result w₁ hcall => ?_,
    fun outcomes => ?_, fun g args u u' r hresolves hyields => ?_⟩
  · have hw : w.nextId < (w.minted 3).nextId := Nat.lt_add_of_pos_right (by decide)
    obtain ⟨hnext, hresolved, -⟩ := (upheld_sparing hhost w.nextId).shows hw
      (Spares.call f _ _ hw) hcall fun _ _ => trivial
    refine firstCounts hhost (Nat.lt_of_lt_of_eq hnext (w₁.nextId_ended _ _).symm) ?_
    have hopen : (w.minted 3).cells.get? w.nextId = none := hfresh
    rw [World.get?_ended, hresolved, hopen, Option.none_or, List.head?_append]
  · obtain ⟨w', hyields, hnext, hkept⟩ := yields_settle_all w.nextId outcomes (w.minted 1)
    have hcell : (Action.minting newId : Action C S Nat).Yields w (.ok w.nextId) (w.minted 1) :=
      ⟨0, rfl⟩
    have hstart : (Recipe.resolving outcomes).start.Yields w (.ok (.awaiting w.nextId)) w' :=
      hcell.bind (hyields.bind (Action.yields_pure _ _))
    have hopen : (w.minted 1).cells.get? w.nextId = none := hfresh
    rw [hopen, Option.none_or] at hkept
    exact ⟨w', hstart, firstCounts hhost (hnext ▸ Nat.lt_succ_self w.nextId) hkept⟩
  · obtain ⟨side, hcode⟩ := resolves_iff.mp hresolves
    have hsettles := (yields_resolver hcode args u).call
    obtain ⟨rfl, rfl⟩ := hyields.unique hsettles
    exact ⟨rfl, fun other hother => u.get?_settled_of_ne hother _⟩

/-- The function of a small program: it succeeds with its first resolution and ends with an error
after that. -/
inductive Hasty where
  | procedure

namespace Hasty

instance : Embedding Hasty Unit where
  body
    | procedure, args =>
      match argument args 1 with
      | .func succeed => do
        let _ ← call succeed [.bool true]
        .fail (.invalidArgument "procedure" "refused")
      | _ => return .nil

/-- The program writes to no cell by itself. -/
theorem hostSpares : HostSpares Hasty Unit := by
  intro cell c args
  cases c
  simp only [Embedding.body]
  split
  · exact .bind (.call _ _) fun _ => .fail _
  · exact .pure _

end Hasty

/-- A procedure that succeeds and then ends with an error: the run has succeeded, and calling a resolver
again changes nothing. -/
theorem first_resolution_settles_hasty :
    let f : Func Hasty := ⟨9, "hasty", 2, .host .procedure⟩
    let w : World Hasty Unit := ⟨.empty, .empty, .empty, .empty, [], 10, ()⟩
    ∃ w', (Recipe.procedure f).start.Shows (resolves 10) w
        [⟨⟨12, "succeed", 1, .resolver 10 .success⟩, [.bool true], .ok .nil⟩]
        (.ok (.awaiting 10)) w' ∧
      (Run.awaiting 10).poll.Yields w' (.ok (.settled ⟨.success, .bool true⟩)) w' ∧
      (call ⟨11, "fail", 1, .resolver 10 .failure⟩ [.nil]).Yields w' (.ok .nil) w' := by
  intro f w
  obtain ⟨hstart, hcounts, -⟩ := first_resolution_settles Hasty.hostSpares (w := w) rfl
  have hcall : (call f (resolversOf 10)).Shows (resolves 10) (w.minted 3)
      [⟨⟨12, "succeed", 1, .resolver 10 .success⟩, [.bool true], .ok .nil⟩]
      (.error (.invalidArgument "procedure" "refused"))
      ((w.minted 3).settled 10 ⟨.success, .bool true⟩) := ⟨3, rfl⟩
  have hcounts := hcounts f _ _ _ hcall
  refine ⟨_, (hstart f _ _ _).mpr ⟨_, _, hcall, rfl, rfl⟩, ?_, ?_⟩
  · exact (hcounts.settles [] _ _ (.none _) rfl).2
  · exact hcounts.ignores [] _ _ _ (.none _) (by simp [resolutions, SeenCall.outcome?]) rfl

end DynamicDispatch
