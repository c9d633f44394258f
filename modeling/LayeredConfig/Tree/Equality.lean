import LayeredConfig.Tree.Basic

/-!
# Equality of trees

Two relations on trees. Identity is Lean's `=`, made decidable here: it sees the order of entries and the
sign of zero. `Tree.equals` is the equality of configurations: entries may stand in any order, the two
zeros are equal, what is no number equals its own copies, and an integer never equals a double.
-/

namespace LayeredConfig.Tree

mutual

/-- Decides whether two trees are identical. -/
def decideEq : (a b : Tree) → Decidable (a = b)
  | .null, b => match b with
    | .null => isTrue rfl
    | .bool _ | .int _ | .double _ | .string _ | .sequence _ | .mapping _ => isFalse nofun
  | .bool x, b => match b with
    | .bool y => decidable_of_iff (x = y) (by simp)
    | .null | .int _ | .double _ | .string _ | .sequence _ | .mapping _ => isFalse nofun
  | .int x, b => match b with
    | .int y => decidable_of_iff (x = y) (by simp)
    | .null | .bool _ | .double _ | .string _ | .sequence _ | .mapping _ => isFalse nofun
  | .double x, b => match b with
    | .double y => decidable_of_iff (x = y) (by simp)
    | .null | .bool _ | .int _ | .string _ | .sequence _ | .mapping _ => isFalse nofun
  | .string x, b => match b with
    | .string y => decidable_of_iff (x = y) (by simp)
    | .null | .bool _ | .int _ | .double _ | .sequence _ | .mapping _ => isFalse nofun
  | .sequence xs, b => match b with
    | .sequence ys =>
      have := decideItemsEq xs ys
      decidable_of_iff (xs = ys) (by simp)
    | .null | .bool _ | .int _ | .double _ | .string _ | .mapping _ => isFalse nofun
  | .mapping xs, b => match b with
    | .mapping ys =>
      have := decideEntriesEq xs ys
      decidable_of_iff (xs = ys) (by simp)
    | .null | .bool _ | .int _ | .double _ | .string _ | .sequence _ => isFalse nofun

/-- Decides whether two lists of trees are identical. -/
def decideItemsEq : (a b : List Tree) → Decidable (a = b)
  | [], [] => isTrue rfl
  | [], _ :: _ => isFalse nofun
  | _ :: _, [] => isFalse nofun
  | x :: xs, y :: ys =>
    have := decideEq x y
    have := decideItemsEq xs ys
    decidable_of_iff (x = y ∧ xs = ys) (by simp)

/-- Decides whether two lists of entries are identical. -/
def decideEntriesEq : (a b : List (String × Tree)) → Decidable (a = b)
  | [], [] => isTrue rfl
  | [], _ :: _ => isFalse nofun
  | _ :: _, [] => isFalse nofun
  | (k, x) :: xs, (l, y) :: ys =>
    have := decideEq x y
    have := decideEntriesEq xs ys
    decidable_of_iff (k = l ∧ x = y ∧ xs = ys) (by simp [and_assoc])

end

instance : DecidableEq Tree := decideEq

mutual

/-- Equality of configurations. -/
def equals : Tree → Tree → Bool
  | .null, .null => true
  | .bool x, .bool y => x == y
  | .int x, .int y => x == y
  | .double x, .double y => x.numericallyEqual y
  | .string x, .string y => x == y
  | .sequence xs, .sequence ys => itemsEqual xs ys
  | .mapping xs, .mapping ys => xs.length == ys.length && entriesEqual xs ys
  | _, _ => false

/-- Equality of items, one by one. -/
def itemsEqual : List Tree → List Tree → Bool
  | [], [] => true
  | x :: xs, y :: ys => x.equals y && itemsEqual xs ys
  | _, _ => false

/-- Whether each entry of the first list has an equal value under its key in the second. -/
def entriesEqual : List (String × Tree) → List (String × Tree) → Bool
  | [], _ => true
  | (key, x) :: xs, ys =>
    (match ys.lookup key with
      | some y => x.equals y
      | none => false)
    && entriesEqual xs ys

end

end LayeredConfig.Tree
