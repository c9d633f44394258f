/-!
# Entries of a mapping

A mapping is kept as the list of its entries in the order in which their keys first came. `put` keeps the
place of a key that is there and adds a new key at the end. Lookup is the core library's `List.lookup`.
-/

namespace LayeredConfig.Entries

variable {κ α : Type} [DecidableEq κ]

/-- Gives a key a value: in its old place if it has one, else at the end. -/
def put (key : κ) (value : α) : List (κ × α) → List (κ × α)
  | [] => [(key, value)]
  | (k, v) :: rest => if k = key then (key, value) :: rest else (k, v) :: put key value rest

/-- The entries that are left without a key. -/
def erase (key : κ) (entries : List (κ × α)) : List (κ × α) :=
  entries.filter fun entry => entry.1 != key

/-- Whether a key has a value. -/
def has (key : κ) (entries : List (κ × α)) : Bool :=
  (entries.lookup key).isSome

/-- The entries in increasing order of their keys. -/
def sortByKey (entries : List (String × α)) : List (String × α) :=
  entries.mergeSort fun a b => !(b.1 < a.1)

/-- Enters a list of pairs one after another, so that a repeated key keeps its first place and gets its
last value. -/
def ofPairs (pairs : List (κ × α)) : List (κ × α) :=
  pairs.foldl (fun entries pair => put pair.1 pair.2 entries) []

theorem lookup_put_self (key : κ) (value : α) (entries : List (κ × α)) :
    (put key value entries).lookup key = some value := by
  induction entries with
  | nil => simp [put]
  | cons entry rest ih =>
    obtain ⟨k, v⟩ := entry
    by_cases h : k = key
    · simp [put, h]
    · have h' : (key == k) = false := by simp [Ne.symm h]
      simp [put, h, List.lookup_cons, h', ih]

theorem lookup_put_of_ne {key other : κ} (h : other ≠ key) (value : α)
    (entries : List (κ × α)) :
    (put key value entries).lookup other = entries.lookup other := by
  induction entries with
  | nil => simp [put, List.lookup_cons, beq_eq_false_iff_ne.mpr h]
  | cons entry rest ih =>
    obtain ⟨k, v⟩ := entry
    by_cases hk : k = key
    · subst hk
      simp [put, List.lookup_cons, beq_eq_false_iff_ne.mpr h]
    · simp only [put, if_neg hk, List.lookup_cons]
      split <;> simp [ih]

theorem lookup_put (key other : κ) (value : α) (entries : List (κ × α)) :
    (put key value entries).lookup other =
      if other = key then some value else entries.lookup other := by
  split
  · next h => rw [h, lookup_put_self]
  · next h => rw [lookup_put_of_ne h]

theorem mem_keys_of_lookup {κ : Type} [BEq κ] [LawfulBEq κ] {key : κ} {value : α} {entries : List (κ × α)}
    (h : entries.lookup key = some value) : key ∈ entries.map Prod.fst := by
  induction entries with
  | nil => simp at h
  | cons entry rest ih =>
    obtain ⟨k, v⟩ := entry
    by_cases same : key == k
    · simp [eq_of_beq same]
    · simp only [List.lookup_cons, same] at h
      simp [ih h]

end LayeredConfig.Entries
