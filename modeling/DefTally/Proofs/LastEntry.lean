import DefTally.Dictionary
import Mathlib.Data.List.Induction

/-!
# The last entry decides

A dictionary that is made of entries maps a key to the value of the last entry with that key
(`get?_ofList_eq_some_iff`).
-/

namespace DefTally.Dictionary

variable {α : Type}

theorem ofList_concat (entries : List (String × α)) (e : String × α) :
    ofList (entries ++ [e]) = (ofList entries).insert e.1 e.2 := by
  rw [ofList, List.foldl_append]
  rfl

/-- The value of a key is that of the last entry with the key. -/
theorem get?_ofList (entries : List (String × α)) (key : String) :
    (ofList entries).get? key = entries.reverse.lookup key := by
  induction entries using List.reverseRecOn with
  | nil => rfl
  | append_singleton before e ih =>
    obtain ⟨k, v⟩ := e
    rw [ofList_concat, List.reverse_concat, List.lookup_cons]
    by_cases same : key = k
    · subst same
      rw [get?_insert_self, beq_self_eq_true]
    · rw [get?_insert_of_ne _ _ same, ih, beq_false_of_ne same]

theorem get?_ofList_eq_some_iff {entries : List (String × α)} {key : String} {value : α} :
    (ofList entries).get? key = some value ↔
      ∃ before after, entries = before ++ (key, value) :: after ∧ ∀ e ∈ after, e.1 ≠ key := by
  rw [get?_ofList, List.lookup_eq_some_iff]
  constructor
  · rintro ⟨later, earlier, split, apart⟩
    refine ⟨earlier.reverse, later.reverse, ?_, fun e h => ?_⟩
    · rw [← List.reverse_reverse entries, split]
      simp
    · exact fun same => by simpa [same] using apart e (List.mem_reverse.1 h)
  · rintro ⟨before, after, rfl, apart⟩
    refine ⟨after.reverse, before.reverse, by simp, fun e h => ?_⟩
    exact bne_iff_ne.2 (Ne.symm (apart e (List.mem_reverse.1 h)))

end DefTally.Dictionary
