import LayeredConfig.Tree.Basic

/-!
# Merging trees

`Tree.merge lower upper` lays one tree over another: mappings are merged key by key, and everywhere else the
upper tree wins, a null included. Keys that only the lower tree has are kept.
-/

namespace LayeredConfig.Tree

mutual

/-- Lays `upper` over `lower`. -/
def merge (lower upper : Tree) : Tree :=
  match upper with
  | .mapping uppers =>
    match lower with
    | .mapping lowers => .mapping (mergeEntries lowers uppers)
    | _ => .mapping uppers
  | _ => upper
termination_by structural upper

/-- Lays entries, one after another, over the entries of a mapping. -/
def mergeEntries (lowers uppers : List (String × Tree)) : List (String × Tree) :=
  match uppers with
  | [] => lowers
  | (key, value) :: rest =>
    let merged :=
      match lowers.lookup key with
      | some lower => lower.merge value
      | none => value
    mergeEntries (Entries.put key merged lowers) rest
termination_by structural uppers

end

end LayeredConfig.Tree
