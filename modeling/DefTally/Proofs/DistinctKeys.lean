import DefTally.Proofs.LastEntry
import Mathlib.Data.List.Dedup

/-!
# The keys of a dictionary

A dictionary lists each of its keys once, with the value of the key (`mem_toList_iff`). One that is
made of entries has as many keys as the entries have different ones (`size_ofList`): none is lost
just when no two entries have the same key (`size_ofList_eq_iff`).
-/

namespace DefTally.Dictionary

variable {α : Type} {d : Dictionary α} {key : String} {value : α}

theorem keys_nodup (d : Dictionary α) : (d.toList.map Prod.fst).Nodup := by
  refine List.pairwise_map.2 (d.ascending.imp fun {a b} less same => ?_)
  rw [same] at less
  exact String.lt_irrefl _ less

/-- A dictionary lists a key with its value. -/
theorem mem_toList_iff : (key, value) ∈ d.toList ↔ d.get? key = some value := by
  have keys := d.keys_nodup
  unfold get?
  generalize d.toList = entries at keys
  induction entries with
  | nil => simp
  | cons entry rest ih =>
    obtain ⟨k, v⟩ := entry
    rw [List.map_cons, List.nodup_cons] at keys
    rw [List.mem_cons, List.lookup_cons]
    by_cases same : key = k
    · subst same
      have absent : (key, value) ∉ rest := fun inside => keys.1 (List.mem_map.2 ⟨_, inside, rfl⟩)
      simp [absent, eq_comm]
    · simp [beq_false_of_ne same, same, ih keys.2]

/-- The keys of a dictionary of entries are those of the entries. -/
theorem mem_keys_ofList {entries : List (String × α)} :
    key ∈ (ofList entries).toList.map Prod.fst ↔ key ∈ entries.map Prod.fst := by
  constructor
  · intro listed
    obtain ⟨⟨_, v⟩, inside, rfl⟩ := List.mem_map.1 listed
    obtain ⟨before, after, split, -⟩ := get?_ofList_eq_some_iff.1 (mem_toList_iff.1 inside)
    exact List.mem_map.2 ⟨_, split ▸ List.mem_append_right _ List.mem_cons_self, rfl⟩
  · intro listed
    obtain ⟨entry, inside, rfl⟩ := List.mem_map.1 listed
    cases found : (ofList entries).get? entry.1 with
    | some v => exact List.mem_map.2 ⟨_, mem_toList_iff.2 found, rfl⟩
    | none =>
      rw [get?_ofList, List.lookup_eq_none_iff] at found
      exact absurd (found entry (List.mem_reverse.2 inside)) (by simp)

/-- A dictionary of entries has as many keys as the entries have different ones. -/
theorem size_ofList (entries : List (String × α)) :
    (ofList entries).size = (entries.map Prod.fst).dedup.length := by
  have same : ((ofList entries).toList.map Prod.fst).Perm (entries.map Prod.fst).dedup := by
    refine (List.perm_ext_iff_of_nodup (keys_nodup _) (List.nodup_dedup _)).2 fun key => ?_
    rw [mem_keys_ofList, List.mem_dedup]
  rw [size, ← List.length_map Prod.fst]
  exact same.length_eq

theorem size_ofList_le (entries : List (String × α)) : (ofList entries).size ≤ entries.length := by
  rw [size_ofList]
  exact Nat.le_trans (List.dedup_sublist _).length_le (Nat.le_of_eq (List.length_map _))

/-- No entry is lost just when no two of them have the same key. -/
theorem size_ofList_eq_iff {entries : List (String × α)} :
    (ofList entries).size = entries.length ↔ (entries.map Prod.fst).Nodup := by
  have all : (entries.map Prod.fst).length = entries.length := List.length_map _
  rw [size_ofList, ← all, ← List.dedup_eq_self]
  exact ⟨(List.dedup_sublist _).eq_of_length, congrArg _⟩

/-- Entries with different keys are all in the dictionary that is made of them. -/
theorem get?_ofList_of_nodup {entries : List (String × α)} (distinct : (entries.map Prod.fst).Nodup) :
    (ofList entries).get? key = some value ↔ (key, value) ∈ entries := by
  constructor
  · intro found
    obtain ⟨before, after, rfl, -⟩ := get?_ofList_eq_some_iff.1 found
    exact List.mem_append_right _ List.mem_cons_self
  · intro inside
    obtain ⟨before, after, rfl⟩ := List.append_of_mem inside
    rw [List.map_append, List.map_cons] at distinct
    have apart := (List.nodup_cons.1 (List.nodup_append.1 distinct).2.1).1
    exact get?_ofList_eq_some_iff.2 ⟨before, after, rfl, fun e later same =>
      apart (List.mem_map.2 ⟨e, later, same⟩)⟩

/-- A dictionary that is made of entries with different keys lists these entries. -/
theorem toList_ofList_perm {entries : List (String × α)} (distinct : (entries.map Prod.fst).Nodup) :
    (ofList entries).toList.Perm entries := by
  refine (List.perm_ext_iff_of_nodup (keys_nodup _).of_map distinct.of_map).2 fun entry => ?_
  rw [mem_toList_iff, get?_ofList_of_nodup distinct]

end DefTally.Dictionary
