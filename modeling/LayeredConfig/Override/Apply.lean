import LayeredConfig.Journal.Logged
import LayeredConfig.Override.Basic
import LayeredConfig.Tree.Assign

/-!
# Applying overrides

Overrides are read and applied one after another. The first that fails ends the application; those before it
stay applied.
-/

namespace LayeredConfig

namespace Override

/-- Applies an override to a tree. -/
def apply (override : Override) (tree : Tree) : Attempt :=
  tree.assign override.path override.value override.add

/-- The record of an override that has been applied. -/
def record (override : Override) : Record :=
  let sign := if override.add then "+" else ""
  .debug "hydralite.core.config.overrides" s!"Applied override {sign}{override.path.render}"

end Override

/-- What applying a list of overrides leaves: the tree as it then is, the overrides that were applied, and
the failure that ended the application, if one did. -/
structure Application where
  tree : Tree
  applied : List Override
  failure : Option Error

namespace Application

/-- The records of the overrides that were applied. -/
def log (application : Application) : List Record :=
  application.applied.map Override.record

/-- The tree, if nothing failed, with the records. -/
def logged (application : Application) : Logged Tree :=
  ⟨(Attempt.mk application.tree application.failure).outcome, application.log⟩

end Application

namespace Tree

/-- Reads and applies overrides in order. -/
def override (tree : Tree) : List String → Application
  | [] => ⟨tree, [], none⟩
  | expression :: rest =>
    match Override.parse expression with
    | .error e => ⟨tree, [], some e⟩
    | .ok change =>
      match change.apply tree with
      | ⟨tree, some e⟩ => ⟨tree, [], some e⟩
      | ⟨tree, none⟩ =>
        let later := tree.override rest
        ⟨later.tree, change :: later.applied, later.failure⟩

end Tree

end LayeredConfig
