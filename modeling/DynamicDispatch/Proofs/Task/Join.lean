import DynamicDispatch.Task.Join
import Mathlib.Data.List.Induction
import Mathlib.Data.List.Nodup
import Mathlib.Data.List.Perm.Subperm

/-!
# What a join makes of the order of arrival

The children of a parallel task report in some order, each at most once. `verdict` says what the order
decides: the first failure in it, or all values by position once nobody is missing. A join that has
read a part of the order and finds the rest in its mailbox comes to this verdict, however the order
was cut, and never to the report that a child was dropped.
-/

namespace DynamicDispatch.Join

variable {C : Type}

/-- What the order in which children arrived decides, given their outcomes by position: the first
failure, or the values of all children by position when all have arrived. -/
def verdict (n : Nat) (results : Nat → Outcome (Value C)) (order : List Nat) :
    Option (Outcome (Value C)) :=
  match order.find? fun i => (results i).side = .failure with
  | some i => some (results i)
  | none =>
    if order.length = n then
      some ⟨.success, .list ((List.range n).map fun i => (results i).value)⟩
    else none

/-- An order in which children of `n` may arrive: each at most once. -/
structure Arrivals (n : Nat) (order : List Nat) : Prop where
  nodup : order.Nodup
  lt_of_mem : ∀ i ∈ order, i < n

section Arrivals

variable {n : Nat} {order : List Nat}

/-- The arrivals are among all children. -/
theorem Arrivals.subperm (h : Arrivals n order) : order.Subperm (List.range n) :=
  List.subperm_of_subset h.nodup fun i hi => List.mem_range.mpr (h.lt_of_mem i hi)

/-- No more children arrive than there are. -/
theorem Arrivals.length_le (h : Arrivals n order) : order.length ≤ n := by
  simpa using h.subperm.length_le

/-- When as many children have arrived as there are, each of them has. -/
theorem Arrivals.mem_of_length_eq (h : Arrivals n order) (hlength : order.length = n) {i : Nat}
    (hi : i < n) : i ∈ order := by
  have hperm := h.subperm.perm_of_length_le (by simp [hlength])
  exact hperm.mem_iff.mpr (List.mem_range.mpr hi)

end Arrivals

variable (n : Nat) (results : Nat → Outcome (Value C))

/-- The join that has received the values of some children one after the other. -/
def received (order : List Nat) : Join C :=
  order.foldl (fun j i => j.receive i (results i).value) (.start n)

/-- The last child to arrive is received last. -/
theorem received_concat (order : List Nat) (i : Nat) :
    received n results (order ++ [i]) = (received n results order).receive i (results i).value := by
  rw [received, List.foldl_append]
  rfl

/-- As many values are missing as children have not arrived. -/
theorem missing_received (order : List Nat) :
    (received n results order).missing = n - order.length := by
  induction order using List.reverseRecOn with
  | nil => rfl
  | append_singleton order i ih =>
    rw [received_concat, List.length_append]
    change (received n results order).missing - 1 = _
    rw [ih]
    rfl

/-- The slots that are filled are those of the children that have arrived, each with its value. -/
theorem slots_received (order : List Nat) :
    (received n results order).slots =
      (List.range n).map fun k => if k ∈ order then some (results k).value else none := by
  induction order using List.reverseRecOn with
  | nil =>
    change List.replicate n none = _
    simp [List.map_const']
  | append_singleton order i ih =>
    rw [received_concat]
    change (received n results order).slots.set i _ = _
    rw [ih]
    apply List.ext_getElem
    · simp
    · intro k hk hk'
      by_cases hki : i = k
      · subst hki
        simp
      · simp [hki, Ne.symm hki]

/-- When all children have arrived, the values of the join are all values by position. -/
theorem values_received {order : List Nat} (h : Arrivals n order) (hlength : order.length = n) :
    (received n results order).values = (List.range n).map fun i => (results i).value := by
  rw [values, slots_received, List.map_map]
  refine List.map_congr_left fun i hi => ?_
  simp [h.mem_of_length_eq hlength (List.mem_range.mp hi)]

/-- No failure is found exactly when all arrivals are successes. -/
theorem find?_failure_eq_none {order : List Nat} :
    (order.find? fun i => (results i).side = .failure) = none ↔
      ∀ k ∈ order, (results k).side = .success := by
  rw [List.find?_eq_none]
  refine forall₂_congr fun k _ => ?_
  cases (results k).side <;> simp

/-- A failure after successes is the first one. -/
theorem verdict_of_failure {before after : List Nat} {i : Nat}
    (hbefore : ∀ k ∈ before, (results k).side = .success) (hi : (results i).side = .failure) :
    verdict n results (before ++ i :: after) = some (results i) := by
  have hnone := (find?_failure_eq_none results).mpr hbefore
  simp [verdict, List.find?_append, hnone, hi]

/-- Without a failure the verdict waits for all children. -/
theorem verdict_of_success {order : List Nat} (h : ∀ k ∈ order, (results k).side = .success) :
    verdict n results order =
      if order.length = n then
        some ⟨.success, .list ((List.range n).map fun i => (results i).value)⟩
      else none := by
  rw [verdict, (find?_failure_eq_none results).mpr h]

/-- As long as there is no verdict, all arrivals were successes. -/
theorem success_of_verdict_eq_none {order : List Nat} (h : verdict n results order = none) :
    ∀ k ∈ order, (results k).side = .success := by
  rw [← find?_failure_eq_none]
  cases hfound : order.find? fun i => (results i).side = .failure with
  | none => rfl
  | some j =>
    rw [verdict, hfound] at h
    cases h

/-- A verdict is a failure that has arrived, or all values when all children have succeeded. -/
theorem verdict_eq_some {order : List Nat} (h : Arrivals n order) {o : Outcome (Value C)}
    (hverdict : verdict n results order = some o) :
    (∃ i ∈ order, (results i).side = .failure ∧ o = results i) ∨
      ((∀ i < n, i ∈ order ∧ (results i).side = .success) ∧
        o = ⟨.success, .list ((List.range n).map fun i => (results i).value)⟩) := by
  cases hfound : order.find? fun i => (results i).side = .failure with
  | some i =>
    rw [verdict, hfound] at hverdict
    have hfailure : (results i).side = .failure := by simpa using List.find?_some hfound
    exact Or.inl ⟨i, List.mem_of_find?_eq_some hfound, hfailure, (Option.some.inj hverdict).symm⟩
  | none =>
    have hsuccess := (find?_failure_eq_none results).mp hfound
    rw [verdict_of_success n results hsuccess] at hverdict
    by_cases hlength : order.length = n
    · rw [if_pos hlength] at hverdict
      have hmem : ∀ i < n, i ∈ order := fun i hi => h.mem_of_length_eq hlength hi
      exact Or.inr ⟨fun i hi => ⟨hmem i hi, hsuccess i (hmem i hi)⟩,
        (Option.some.inj hverdict).symm⟩
    · rw [if_neg hlength] at hverdict
      cases hverdict

/-- Later arrivals do not change a verdict. -/
theorem verdict_concat {order : List Nat} {i : Nat} (h : Arrivals n (order ++ [i]))
    {o : Outcome (Value C)} (hverdict : verdict n results order = some o) :
    verdict n results (order ++ [i]) = some o := by
  have hlength := h.length_le
  rw [List.length_append, List.length_singleton] at hlength
  unfold verdict at hverdict ⊢
  rw [List.find?_append]
  cases hfound : order.find? fun i => (results i).side = .failure with
  | some j => simpa [hfound] using hverdict
  | none =>
    rw [hfound] at hverdict
    simp only at hverdict
    rw [if_neg (by omega)] at hverdict
    cases hverdict

/-- A join that has read the values of the children which arrived first comes to the verdict on the
whole order when it finds the reports of the others. -/
theorem drain_received {read queued : List Nat} (h : Arrivals n (read ++ queued))
    (hread : ∀ k ∈ read, (results k).side = .success) :
    drain (n - (read ++ queued).length) (received n results read)
        (queued.map fun i => (i, results i)) =
      match verdict n results (read ++ queued) with
      | some o => .inl o
      | none => .inr (received n results (read ++ queued)) := by
  induction queued generalizing read with
  | nil =>
    rw [List.append_nil] at h ⊢
    rw [verdict_of_success n results hread, List.map_nil, drain, missing_received]
    have hlength := h.length_le
    by_cases hall : read.length = n
    · rw [if_pos (by omega), if_pos hall, values_received n results h hall]
    · rw [if_neg (by omega), if_neg hall, if_neg (by omega)]
  | cons i queued ih =>
    have hlength := h.length_le
    rw [List.length_append, List.length_cons] at hlength
    rw [List.map_cons, drain, missing_received, if_neg (by omega)]
    cases hside : (results i).side with
    | failure =>
      rw [verdict_of_failure n results hread hside]
    | success =>
      have hshift : read ++ i :: queued = read ++ [i] ++ queued := by simp
      have hreadi : ∀ k ∈ read ++ [i], (results k).side = .success := by
        intro k hk
        rcases List.mem_append.mp hk with hk | hk
        · exact hread k hk
        · exact List.mem_singleton.mp hk ▸ hside
      simp only
      rw [hshift] at h ⊢
      rw [← received_concat]
      exact ih h hreadi

end DynamicDispatch.Join
