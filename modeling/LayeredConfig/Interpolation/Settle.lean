import LayeredConfig.Interpolation.Template
import LayeredConfig.Journal.Logged
import LayeredConfig.KeyPath.Parse
import LayeredConfig.Surroundings
import LayeredConfig.Time.Pattern
import LayeredConfig.Tree.Address
import LayeredConfig.Tree.Assign
import LayeredConfig.Tree.PlainText

/-!
# Settling the strings of a tree

A string with placeholders is a template, and settling it fills the placeholders in. Nodes are settled depth
first, each once. A reference settles the node that it leads to before it takes its text, so it sees the final
value, and text that has been filled in is never read as a template.

The tree itself does not change on the way: `Progress` holds the nodes that are done with the texts that
templates got. A node is open while it is being settled, and `free` lists the addresses of the nodes that are not
open. A reference to an open node closes a cycle. Each node that opens makes `free` shorter, so settling ends.
-/

namespace LayeredConfig.Interpolation

/-- How far settling has come: the nodes that are done, each with its text if it was a template, last first,
and the records made. -/
structure Progress where
  done : List (KeyPath × Option String)
  log : List Record

namespace Progress

/-- Nothing is done. -/
def start : Progress := ⟨[], []⟩

/-- Whether the node at an address is done. -/
def isDone (progress : Progress) (path : KeyPath) : Bool :=
  (progress.done.lookup path).isSome

/-- The text that the template at an address got. -/
def text? (progress : Progress) (path : KeyPath) : Option String :=
  (progress.done.lookup path).join

/-- The node at an address as it now is. -/
def current (progress : Progress) (path : KeyPath) (node : Tree) : Tree :=
  match progress.text? path with
  | some text => .string text
  | none => node

/-- The tree as it now is. -/
def apply (progress : Progress) (tree : Tree) : Tree :=
  tree.mapStrings (fun path text => (progress.text? path).getD text) []

end Progress

/-- An action that moves settling on or fails, keeping what is done either way. -/
abbrev Settling := EStateM Error Progress

namespace Settling

/-- Takes an outcome over. -/
def ofExcept {α : Type} : Except Error α → Settling α
  | .ok a => pure a
  | .error e => throw e

/-- Notes that a node is done. -/
def finish (path : KeyPath) (text : Option String) : Settling Unit :=
  modify fun progress => ⟨(path, text) :: progress.done, progress.log⟩

/-- Makes a record. -/
def record (record : Record) : Settling Unit :=
  modify fun progress => ⟨progress.done, progress.log ++ [record]⟩

end Settling

/-- The record of a variable whose fallback is used. -/
def fallbackRecord (name : List Char) (path : KeyPath) : Record :=
  .debug "hydralite.core.config.interpolation"
    s!"Environment variable {String.ofList name} unset, using fallback at {path.render}"

theorem length_erase_lt {path : KeyPath} {free : List KeyPath} (h : path ∈ free) :
    (free.erase path).length < free.length := by
  have := List.length_pos_of_mem h
  rw [List.length_erase_of_mem h]
  omega

mutual

/-- Settles a node of a tree. -/
def settle (surroundings : Surroundings) (tree : Tree) (free : List KeyPath) (path : KeyPath)
    (node : Tree) : Settling Unit := do
  let progress ← get
  if progress.isDone path then
    return ()
  else if _open : path ∈ free then
    match node with
    | .mapping entries =>
      settleEntries surroundings tree (free.erase path) path entries
      Settling.finish path none
    | .sequence items =>
      settleItems surroundings tree (free.erase path) path 0 items
      Settling.finish path none
    | .string text =>
      if Template.hasMarker text.toList then
        let filled ← fill surroundings tree (free.erase path) path (Template.parse text.toList)
        Settling.finish path (some (String.ofList filled))
      else Settling.finish path none
    | _ => Settling.finish path none
  else throw (.interpolationCycle path)
termination_by (free.length, 0, 0)
decreasing_by
  all_goals exact Prod.Lex.left _ _ (length_erase_lt _open)

/-- Settles the items of a sequence from a position on. -/
def settleItems (surroundings : Surroundings) (tree : Tree) (free : List KeyPath) (path : KeyPath)
    (position : Nat) : List Tree → Settling Unit
  | [] => return ()
  | item :: rest => do
    settle surroundings tree free (Tree.itemAddress path position) item
    settleItems surroundings tree free path (position + 1) rest
termination_by items => (free.length, 1, sizeOf items)

/-- Settles the entries of a mapping. -/
def settleEntries (surroundings : Surroundings) (tree : Tree) (free : List KeyPath)
    (path : KeyPath) : List (String × Tree) → Settling Unit
  | [] => return ()
  | (key, value) :: rest => do
    settle surroundings tree free (Tree.entryAddress path key) value
    settleEntries surroundings tree free path rest
termination_by entries => (free.length, 1, sizeOf entries)

/-- The text of the parts of a template that stands at `path`. -/
def fill (surroundings : Surroundings) (tree : Tree) (free : List KeyPath) (path : KeyPath) :
    Template → Settling (List Char)
  | [] => return []
  | piece :: rest => do
    let text ← fillPiece surroundings tree free path piece
    let more ← fill surroundings tree free path rest
    return text ++ more
termination_by pieces => (free.length, 1, sizeOf pieces)

/-- The text of a part of a template. -/
def fillPiece (surroundings : Surroundings) (tree : Tree) (free : List KeyPath) (path : KeyPath) :
    Piece → Settling (List Char)
  | .literal text => return text
  | .now pattern => return surroundings.now.write pattern
  | .variable name fallback =>
    match surroundings.value? (String.ofList name) with
    | some value => return value.toList
    | none =>
      if fallback.isEmpty then return []
      else do
        Settling.record (fallbackRecord name path)
        fill surroundings tree free path fallback
  | .reference expression => do
    let target ← Settling.ofExcept (KeyPath.parse (String.ofList expression))
    match tree.find target with
    | none => throw (.referenceAbsent (String.ofList expression) path)
    | some node =>
      settle surroundings tree free target node
      let progress ← get
      Settling.ofExcept (progress.current target node).plainText
  | .unclosed text => throw (.unterminatedPlaceholder (String.ofList text) path)
termination_by piece => (free.length, 1, sizeOf piece)

end

end Interpolation

/-- What filling in the placeholders of a tree leaves: the tree as it then is, the failure if there was one, and
the records made. -/
structure Interpolated where
  tree : Tree
  failure : Option Error
  log : List Record

/-- The tree, if nothing failed, with the records. -/
def Interpolated.logged (interpolated : Interpolated) : Logged Tree :=
  ⟨(Attempt.mk interpolated.tree interpolated.failure).outcome, interpolated.log⟩

/-- Fills in the placeholders of all strings of a tree. -/
def Tree.interpolate (tree : Tree) (surroundings : Surroundings) : Interpolated :=
  match Interpolation.settle surroundings tree (tree.addresses []) [] tree .start with
  | .ok _ progress => ⟨progress.apply tree, none, progress.log⟩
  | .error e progress => ⟨progress.apply tree, some e, progress.log⟩

end LayeredConfig
