/-!
# Dictionaries

A dictionary maps texts to values and keeps its entries in the order of their keys, which is
the order of code points. The order is part of the type, so equal maps are equal dictionaries
and list their entries alike, however they were built.
-/

namespace DefTally

variable {α : Type}

/-- Entries that stand in the order of their keys, each key once. -/
abbrev KeysAscend (entries : List (String × α)) : Prop :=
  entries.Pairwise fun a b => a.1 < b.1

/-- A map from texts to values. -/
structure Dictionary (α : Type) where
  toList : List (String × α)
  ascending : KeysAscend toList
  deriving DecidableEq

namespace Dictionary

/-- Puts a value at a key: where the key is, or before the first that comes after it. -/
def insertEntry (key : String) (value : α) : List (String × α) → List (String × α)
  | [] => [(key, value)]
  | (k, v) :: rest =>
    if key < k then (key, value) :: (k, v) :: rest
    else if k = key then (key, value) :: rest
    else (k, v) :: insertEntry key value rest

theorem mem_insertEntry {key : String} {value : α} {e : String × α} {entries : List (String × α)}
    (h : e ∈ insertEntry key value entries) : e = (key, value) ∨ e ∈ entries := by
  induction entries with
  | nil => exact .inl (List.mem_singleton.1 h)
  | cons head rest ih =>
    obtain ⟨k, v⟩ := head
    rw [insertEntry] at h
    split at h
    · simpa using h
    · split at h
      · rcases List.mem_cons.1 h with h | h
        · exact .inl h
        · exact .inr (List.mem_cons_of_mem _ h)
      · rcases List.mem_cons.1 h with h | h
        · exact .inr (h ▸ List.mem_cons_self)
        · exact (ih h).imp id (List.mem_cons_of_mem _)

theorem keysAscend_insertEntry (key : String) (value : α) {entries : List (String × α)}
    (h : KeysAscend entries) : KeysAscend (insertEntry key value entries) := by
  induction entries with
  | nil => exact List.pairwise_singleton _ _
  | cons head rest ih =>
    obtain ⟨k, v⟩ := head
    obtain ⟨below, ordered⟩ := List.pairwise_cons.1 h
    rw [insertEntry]
    split
    · next before =>
      refine .cons (fun e he => ?_) h
      rcases List.mem_cons.1 he with rfl | he
      · exact before
      · exact String.lt_trans before (below e he)
    · next notBefore =>
      split
      · next same =>
        subst same
        exact .cons below ordered
      · next other =>
        refine .cons (fun e he => ?_) (ih ordered)
        rcases mem_insertEntry he with rfl | he
        · exact Std.lt_of_le_of_ne (String.not_lt.1 notBefore) other
        · exact below e he

theorem lookup_insertEntry_self (key : String) (value : α) (entries : List (String × α)) :
    (insertEntry key value entries).lookup key = some value := by
  induction entries with
  | nil => simp [insertEntry]
  | cons head rest ih =>
    obtain ⟨k, v⟩ := head
    rw [insertEntry]
    split
    · simp
    · split
      · simp
      · next other => rw [List.lookup_cons, beq_false_of_ne (Ne.symm other), ih]

theorem lookup_insertEntry_of_ne {key other : String} (value : α) (h : other ≠ key)
    (entries : List (String × α)) :
    (insertEntry key value entries).lookup other = entries.lookup other := by
  induction entries with
  | nil => simp [insertEntry, h]
  | cons head rest ih =>
    obtain ⟨k, v⟩ := head
    rw [insertEntry]
    split
    · rw [List.lookup_cons, beq_false_of_ne h]
    · split
      · next same => rw [List.lookup_cons, List.lookup_cons, same, beq_false_of_ne h]
      · rw [List.lookup_cons, List.lookup_cons, ih]

/-- The map of nothing. -/
def empty : Dictionary α := ⟨[], .nil⟩

/-- Maps a key to a value, instead of what it was mapped to. -/
def insert (d : Dictionary α) (key : String) (value : α) : Dictionary α :=
  ⟨insertEntry key value d.toList, keysAscend_insertEntry key value d.ascending⟩

/-- The map of some entries: of those with one key, the last one stays. -/
def ofList (entries : List (String × α)) : Dictionary α :=
  entries.foldl (fun d e => d.insert e.1 e.2) empty

/-- What a key is mapped to. -/
def get? (d : Dictionary α) (key : String) : Option α := d.toList.lookup key

/-- How many keys there are. -/
def size (d : Dictionary α) : Nat := d.toList.length

/-- There is no key. -/
def isEmpty (d : Dictionary α) : Bool := d.toList.isEmpty

@[simp] theorem get?_empty (key : String) : (empty : Dictionary α).get? key = none := rfl

@[simp] theorem get?_insert_self (d : Dictionary α) (key : String) (value : α) :
    (d.insert key value).get? key = some value :=
  lookup_insertEntry_self key value d.toList

theorem get?_insert_of_ne (d : Dictionary α) {key other : String} (value : α) (h : other ≠ key) :
    (d.insert key value).get? other = d.get? other :=
  lookup_insertEntry_of_ne value h d.toList

end Dictionary

end DefTally
