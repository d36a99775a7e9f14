import DynamicDispatch.Value.Entries
import Mathlib.Data.List.Forall2
import Mathlib.Data.List.Perm.Subperm

/-!
# Reading the entries of a map

The entries of a map are sorted strictly by their keys. So a key is found exactly where it stands,
the entries can be read back from the list of their keys, two maps of one size have the same keys
as soon as one has all the keys of the other, and two maps in which the same is found are the same.
Putting a value under a key is seen there, nowhere else, and until another one is put there.
-/

namespace DynamicDispatch.Entries

variable {V : Type}

instance (entries : List (String × V)) : Decidable (Sorted entries) :=
  inferInstanceAs (Decidable (List.Pairwise _ _))

/-- A key is found in sorted entries with the value that stands beside it. -/
theorem Sorted.find?_eq_of_mem {entries : List (String × V)} (h : Sorted entries)
    {e : String × V} (he : e ∈ entries) : find? e.1 entries = some e.2 := by
  induction entries with
  | nil => exact absurd he List.not_mem_nil
  | cons first rest ih =>
    obtain ⟨hfirst, hrest⟩ := List.pairwise_cons.mp h
    rcases List.mem_cons.mp he with rfl | he
    · simp [find?]
    · have hne : first.1 ≠ e.1 := fun heq => String.lt_irrefl e.1 (heq ▸ hfirst e he)
      rw [find?, if_neg hne]
      exact ih hrest he

/-- What is found under a key stands there. -/
theorem mem_of_find?_eq_some {key : String} {entries : List (String × V)} {v : V}
    (h : find? key entries = some v) : (key, v) ∈ entries := by
  induction entries with
  | nil => simp [find?] at h
  | cons first rest ih =>
    rw [find?] at h
    by_cases hkey : first.1 = key
    · rw [if_pos hkey, Option.some.injEq] at h
      subst hkey h
      exact List.mem_cons_self
    · rw [if_neg hkey] at h
      exact List.mem_cons_of_mem _ (ih h)

/-- A key is found exactly when it stands there. -/
theorem isSome_find? {key : String} {entries : List (String × V)} :
    (find? key entries).isSome = true ↔ key ∈ entries.map (·.1) := by
  induction entries with
  | nil => simp [find?]
  | cons first rest ih =>
    rw [find?, List.map_cons, List.mem_cons, eq_comm (a := key)]
    by_cases hkey : first.1 = key
    · simp [hkey]
    · simp [hkey, ih]

/-- Sorted entries, with a function applied to the values, are read back from their keys. -/
theorem Sorted.map_eq_map_find? {W : Type} {entries : List (String × V)} (h : Sorted entries)
    (g : V → W) (fallback : V) :
    entries.map (fun e => (e.1, g e.2)) =
      (entries.map (·.1)).map fun key => (key, g ((find? key entries).getD fallback)) := by
  rw [List.map_map]
  refine List.map_congr_left fun e he => ?_
  simp [h.find?_eq_of_mem he]

/-- The keys of sorted entries ascend strictly. -/
theorem Sorted.keys {entries : List (String × V)} (h : Sorted entries) :
    (entries.map (·.1)).Pairwise (· < ·) := List.pairwise_map.mpr h

/-- Entries with the keys of sorted ones, in order, hold a related value under each of them. -/
theorem Sorted.find?_of_forall₂ {W : Type} {first : List (String × V)} {second : List (String × W)}
    (hfirst : Sorted first) (rel : String × V → W → Prop)
    (h : List.Forall₂ (fun a b => b.1 = a.1 ∧ rel a b.2) first second) :
    second.map (·.1) = first.map (·.1) ∧ Sorted second ∧
      ∀ a ∈ first, ∃ v, find? a.1 second = some v ∧ rel a v := by
  have hkeys : second.map (·.1) = first.map (·.1) := by
    induction h with
    | nil => rfl
    | cons hab _ ih => rw [List.map_cons, List.map_cons, hab.1, ih (List.pairwise_cons.mp hfirst).2]
  have hsecond : Sorted second := List.pairwise_map.mp (hkeys ▸ hfirst.keys)
  refine ⟨hkeys, hsecond, fun a ha => ?_⟩
  obtain ⟨i, hi, rfl⟩ := List.getElem_of_mem ha
  have hi' : i < second.length := h.length_eq ▸ hi
  obtain ⟨hkey, hrel⟩ := h.get hi hi'
  have hfound := hsecond.find?_eq_of_mem (List.getElem_mem hi')
  exact ⟨second[i].2, hkey ▸ hfound, hrel⟩

/-- Two strictly ascending lists of keys of one length are the same if one has all keys of the
other. -/
theorem keys_eq_of_subset {first second : List String} (hfirst : first.Pairwise (· < ·))
    (hsecond : second.Pairwise (· < ·)) (hlength : first.length = second.length)
    (hsubset : second ⊆ first) : first = second := by
  have hnodup : second.Nodup := by
    refine hsecond.imp ?_
    rintro a b hab rfl
    exact String.lt_irrefl a hab
  have hperm : second.Perm first :=
    (List.subperm_of_subset hnodup hsubset).perm_of_length_le (Nat.le_of_eq hlength)
  exact hperm.symm.eq_of_pairwise
    (fun a b _ _ hab hba => absurd (String.lt_trans hab hba) (String.lt_irrefl a)) hfirst hsecond

/-- What has been put under a key is found there. -/
theorem find?_insert_self (key : String) (value : V) (entries : List (String × V)) :
    find? key (insert key value entries) = some value := by
  induction entries with
  | nil => simp [insert, find?]
  | cons first rest ih =>
    rw [insert]
    split
    · simp [find?]
    · split
      · simp [find?]
      · rename_i hne
        rw [find?, if_neg hne]
        exact ih

/-- What is found under another key stays. -/
theorem find?_insert_of_ne {key other : String} (hne : key ≠ other) (value : V)
    (entries : List (String × V)) : find? other (insert key value entries) = find? other entries := by
  induction entries with
  | nil => simp [insert, find?, hne]
  | cons first rest ih =>
    rw [insert]
    split
    · rw [find?, if_neg hne]
    · split
      · rename_i heq
        have hfirst : first.1 ≠ other := heq ▸ hne
        rw [find?, if_neg hne, find?, if_neg hfirst]
      · rw [find?, find?, ih]

/-- What is found when a value has been put under a key. -/
theorem find?_insert (key other : String) (value : V) (entries : List (String × V)) :
    find? other (insert key value entries) =
      if key = other then some value else find? other entries := by
  by_cases h : key = other
  · subst h
    rw [if_pos rfl, find?_insert_self]
  · rw [if_neg h, find?_insert_of_ne h]

/-- Nothing is found under a key that comes before all others. -/
theorem find?_eq_none_of_lt {key : String} {entries : List (String × V)}
    (h : ∀ e ∈ entries, key < e.1) : find? key entries = none := by
  cases hfound : find? key entries with
  | none => rfl
  | some v => exact absurd (h _ (mem_of_find?_eq_some hfound)) (String.lt_irrefl key)

/-- Entries with a value put in are the new one and entries that were there. -/
theorem mem_insert {key : String} {value : V} {entries : List (String × V)} {e : String × V}
    (he : e ∈ insert key value entries) : e = (key, value) ∨ e ∈ entries := by
  induction entries with
  | nil => exact Or.inl (List.mem_singleton.mp he)
  | cons first rest ih =>
    rw [insert] at he
    split at he
    · exact List.mem_cons.mp he
    · split at he
      · exact (List.mem_cons.mp he).imp_right (List.mem_cons_of_mem first)
      · rcases List.mem_cons.mp he with rfl | he
        · exact Or.inr List.mem_cons_self
        · exact (ih he).imp_right (List.mem_cons_of_mem first)

/-- Sorted entries stay sorted when a value is put in. -/
theorem Sorted.insert {entries : List (String × V)} (h : Sorted entries) (key : String) (value : V) :
    Sorted (insert key value entries) := by
  induction entries with
  | nil => exact List.pairwise_singleton _ _
  | cons first rest ih =>
    obtain ⟨hfirst, hrest⟩ := List.pairwise_cons.mp h
    rw [Entries.insert]
    split
    · rename_i hlt
      refine List.pairwise_cons.mpr ⟨fun e he => ?_, h⟩
      rcases List.mem_cons.mp he with rfl | he
      · exact hlt
      · exact String.lt_trans hlt (hfirst e he)
    · split
      · rename_i heq
        exact List.pairwise_cons.mpr ⟨heq ▸ hfirst, hrest⟩
      · rename_i hlt hne
        refine List.pairwise_cons.mpr ⟨fun e he => ?_, ih hrest⟩
        rcases mem_insert he with rfl | he
        · exact Std.lt_of_le_of_ne (String.not_lt.mp hlt) hne
        · exact hfirst e he

/-- No entry stands twice among sorted ones. -/
theorem Sorted.nodup {entries : List (String × V)} (h : Sorted entries) : entries.Nodup := by
  refine h.imp ?_
  rintro a b hab rfl
  exact String.lt_irrefl a.1 hab

/-- Sorted entries are those that are found. -/
theorem Sorted.mem_iff {entries : List (String × V)} (h : Sorted entries) {e : String × V} :
    e ∈ entries ↔ find? e.1 entries = some e.2 :=
  ⟨h.find?_eq_of_mem, mem_of_find?_eq_some⟩

/-- Sorted entries in which the same is found under every key are the same. -/
theorem Sorted.ext {first second : List (String × V)} (hfirst : Sorted first)
    (hsecond : Sorted second) (h : ∀ key, find? key first = find? key second) : first = second := by
  have hperm : first.Perm second := by
    refine (List.perm_ext_iff_of_nodup hfirst.nodup hsecond.nodup).mpr fun e => ?_
    rw [hfirst.mem_iff, hsecond.mem_iff, h]
  exact hperm.eq_of_pairwise
    (fun a b _ _ hab hba => absurd (String.lt_trans hab hba) (String.lt_irrefl a.1)) hfirst hsecond

/-- Of two values put under one key the second one stays. -/
theorem insert_insert (key : String) (value value' : V) (entries : List (String × V)) :
    insert key value' (insert key value entries) = insert key value' entries := by
  induction entries with
  | nil => simp [insert]
  | cons first rest ih =>
    by_cases hlt : key < first.1
    · simp [insert, hlt]
    · by_cases heq : first.1 = key
      · simp [insert, heq]
      · simp only [insert, if_neg hlt, if_neg heq, ih]

/-- A value put where it was found changes nothing. -/
theorem Sorted.insert_eq_self {entries : List (String × V)} (h : Sorted entries) {key : String} {v : V}
    (hfound : find? key entries = some v) : Entries.insert key v entries = entries := by
  refine (h.insert key v).ext h fun other => ?_
  rw [find?_insert]
  split
  · rename_i hkey
    rw [← hkey, hfound]
  · rfl

/-- What has been taken out is not found. -/
theorem find?_erase_self (key : String) (entries : List (String × V)) :
    find? key (erase key entries) = none := by
  rw [← Option.not_isSome_iff_eq_none, isSome_find?]
  simp [erase]

/-- What is found under another key stays. -/
theorem find?_erase_of_ne {key other : String} (hne : key ≠ other) (entries : List (String × V)) :
    find? other (erase key entries) = find? other entries := by
  induction entries with
  | nil => rfl
  | cons first rest ih =>
    rw [erase, List.filter_cons]
    by_cases hkey : first.1 = key
    · have hother : first.1 ≠ other := hkey ▸ hne
      rw [if_neg (by simp [hkey]), find?, if_neg hother]
      exact ih
    · rw [if_pos (by simp [hkey]), find?, find?]
      exact if_congr Iff.rfl rfl ih

/-- Sorted entries stay sorted when one is taken out. -/
theorem Sorted.erase {entries : List (String × V)} (h : Sorted entries) (key : String) :
    Sorted (erase key entries) :=
  h.filter _

/-- A value that was put in and taken out again might as well not have been put in. -/
theorem erase_insert (key : String) (value : V) (entries : List (String × V)) :
    erase key (insert key value entries) = erase key entries := by
  induction entries with
  | nil => simp [insert, erase]
  | cons first rest ih =>
    rw [insert]
    split
    · simp [erase]
    · split
      · rename_i hkey
        simp [erase, hkey]
      · simp only [erase] at ih ⊢
        rw [List.filter_cons, List.filter_cons, ih]

/-- Taking out twice is taking out once. -/
theorem erase_erase (key : String) (entries : List (String × V)) :
    erase key (erase key entries) = erase key entries := by
  simp [erase]

end DynamicDispatch.Entries
