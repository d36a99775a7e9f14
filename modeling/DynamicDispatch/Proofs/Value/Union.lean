import DynamicDispatch.Proofs.Value.Entries

/-!
# Putting one map into another

The entries of a map can be put into another map one by one: then the values of the map that is put in
prevail. The union of two maps is made the other way round when the second map is the larger one, so
that there the values of the second map prevail. The two agree exactly where the first map is at least
as large or the maps have no key with different values, and where they agree the union is associative.
-/

namespace DynamicDispatch.Entries

variable {V : Type}

/-- The entries of a map put into another one, one after the other. -/
def putAll (added base : List (String × V)) : List (String × V) :=
  added.foldl (fun entries e => insert e.1 e.2 entries) base

/-- The union puts the smaller map into the larger one, but the second into the first only when it is
larger itself. -/
theorem union_eq (first second : List (String × V)) :
    union first second =
      if second.length ≤ first.length then putAll first second else putAll second first := rfl

/-- A map with entries put in is sorted if it was. -/
theorem Sorted.putAll {base : List (String × V)} (h : Sorted base) (added : List (String × V)) :
    Sorted (putAll added base) := by
  induction added generalizing base with
  | nil => exact h
  | cons e added ih => exact ih (h.insert e.1 e.2)

/-- In a map with the entries of a sorted one put in, the values put in are found, and below them the
values that were there. -/
theorem find?_putAll {added : List (String × V)} (h : Sorted added) (base : List (String × V))
    (key : String) : find? key (putAll added base) = (find? key added).or (find? key base) := by
  induction added generalizing base with
  | nil => rfl
  | cons e added ih =>
    obtain ⟨hfirst, hrest⟩ := List.pairwise_cons.mp h
    change find? key (putAll added (insert e.1 e.2 base)) = _
    rw [ih hrest, find?_insert, find?]
    by_cases hkey : e.1 = key
    · have hnone : find? key added = none := find?_eq_none_of_lt (hkey ▸ hfirst)
      rw [if_pos hkey, if_pos hkey, hnone]
      rfl
    · rw [if_neg hkey, if_neg hkey]

/-- Put into the empty map, the entries of a sorted one make it up. -/
theorem Sorted.putAll_nil {entries : List (String × V)} (h : Sorted entries) :
    Entries.putAll entries [] = entries := by
  have hnil : Sorted ([] : List (String × V)) := List.Pairwise.nil
  refine (hnil.putAll entries).ext h fun key => ?_
  rw [find?_putAll h]
  exact Option.or_none

/-- Putting maps in is associative. -/
theorem putAll_putAll {x y z : List (String × V)} (hx : Sorted x) (hy : Sorted y) (hz : Sorted z) :
    putAll z (putAll y x) = putAll (putAll z y) x := by
  refine Sorted.ext ((hx.putAll y).putAll z) (hx.putAll _) fun key => ?_
  rw [find?_putAll hz, find?_putAll hy, find?_putAll (hy.putAll z), find?_putAll hz, Option.or_assoc]

/-- The union of sorted maps is sorted. -/
theorem Sorted.union {first second : List (String × V)} (hfirst : Sorted first)
    (hsecond : Sorted second) : Sorted (union first second) := by
  rw [union_eq]
  split
  · exact hsecond.putAll first
  · exact hfirst.putAll second

/-- In the union of two maps the values of the larger one are found first, and those of the first one
when they are of one size. -/
theorem find?_union {first second : List (String × V)} (hfirst : Sorted first)
    (hsecond : Sorted second) (key : String) :
    find? key (union first second) =
      if second.length ≤ first.length then (find? key first).or (find? key second)
      else (find? key second).or (find? key first) := by
  rw [union_eq]
  split
  · exact find?_putAll hfirst second key
  · exact find?_putAll hsecond first key

/-- Of two maps the first one prevails in the union: it is at least as large, or no key has different
values in them. -/
def Prevails (first second : List (String × V)) : Prop :=
  second.length ≤ first.length ∨
    ∀ key v v', find? key first = some v → find? key second = some v' → v = v'

/-- Two look-ups can be made in either order exactly when they do not find different values. -/
theorem or_comm_iff (a b : Option V) :
    a.or b = b.or a ↔ ∀ v v', a = some v → b = some v' → v = v' := by
  cases a <;> cases b <;> simp

/-- The union is the second map with the entries of the first put in exactly where the first map
prevails. -/
theorem union_eq_putAll_iff {first second : List (String × V)} (hfirst : Sorted first)
    (hsecond : Sorted second) : union first second = putAll first second ↔ Prevails first second := by
  rw [union_eq]
  by_cases hsize : second.length ≤ first.length
  · rw [if_pos hsize]
    exact iff_of_true rfl (Or.inl hsize)
  · rw [if_neg hsize, Prevails, or_iff_right hsize]
    have hswap : ∀ key, find? key (putAll second first) = find? key (putAll first second) ↔
        ∀ v v', find? key first = some v → find? key second = some v' → v = v' := by
      intro key
      rw [find?_putAll hfirst, find?_putAll hsecond, eq_comm, or_comm_iff]
    constructor
    · exact fun heq key => (hswap key).mp (by rw [heq])
    · exact fun hagree => (hfirst.putAll second).ext (hsecond.putAll first) fun key =>
        (hswap key).mpr (hagree key)

/-- Where in each of the four unions the first map prevails, the union of three maps does not depend on
the order in which it is made. -/
theorem union_union {x y z : List (String × V)} (hx : Sorted x) (hy : Sorted y) (hz : Sorted z)
    (hyx : Prevails y x) (hzyx : Prevails z (union y x)) (hzy : Prevails z y)
    (hzyx' : Prevails (union z y) x) : union z (union y x) = union (union z y) x := by
  rw [(union_eq_putAll_iff hz (hy.union hx)).mpr hzyx, (union_eq_putAll_iff hy hx).mpr hyx,
    (union_eq_putAll_iff (hz.union hy) hx).mpr hzyx', (union_eq_putAll_iff hz hy).mpr hzy,
    putAll_putAll hx hy hz]

/-- The empty map can be joined on either side. -/
theorem union_nil {entries : List (String × V)} (h : Sorted entries) :
    union entries [] = entries ∧ union [] entries = entries := by
  have hnil : Sorted ([] : List (String × V)) := List.Pairwise.nil
  constructor
  · refine (h.union hnil).ext h fun key => ?_
    rw [find?_union h hnil]
    split
    · exact Option.or_none
    · rfl
  · refine (hnil.union h).ext h fun key => ?_
    rw [find?_union hnil h]
    split
    · rfl
    · exact Option.or_none

end DynamicDispatch.Entries
