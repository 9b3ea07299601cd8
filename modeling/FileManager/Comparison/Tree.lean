/-
Trees as a comparison finds them: what is at each relative path below a
root, and what it means that the providers present a tree there.

A tree here is finite, has one entry at a path, and every entry stands
in a directory. Its names are the ones `Location::join` accepts, since
every provider addresses a child by joining its name: a listing with
another name fails.
-/
import FileManager.Comparison.Engine
import FileManager.Transfers.Occurrences

namespace FileManager.Comparison

open Vfs (EntrySummary Instant Providers)

/-- What a provider reports of an entry. -/
structure Attributes where
  id : EntryId
  kind : EntryKind
  size : Option Nat
  modifiedAt : Option Instant
  hidden : Bool

/-- The entries below a root, by their path. -/
structure Tree where
  nodes : List (List String × Attributes)
  distinct : (nodes.map Prod.fst).Nodup
  rooted : Keyed.get nodes [] = none
  named : ∀ node ∈ nodes, ∀ name ∈ node.1, validateName name = .ok ()
  hangs : ∀ path name, Keyed.get nodes (path ++ [name]) ≠ none →
    path = [] ∨ ∃ attributes, Keyed.get nodes path = some attributes ∧ attributes.kind = .directory

namespace Tree

/-- The entry at a path. -/
def get (tree : Tree) (path : List String) : Option Attributes := Keyed.get tree.nodes path

/-- The entry at a path, unless it is to be left out. -/
def shown (tree : Tree) (showHidden : Bool) (path : List String) : Option Attributes :=
  (tree.get path).filter fun attributes => showHidden || !attributes.hidden

/-- The root, or a directory below it. -/
def IsDir (tree : Tree) (path : List String) : Prop :=
  path = [] ∨ ∃ attributes, tree.get path = some attributes ∧ attributes.kind = .directory

/-- The root, or a directory below it that is not left out. -/
def ShownDir (tree : Tree) (showHidden : Bool) (path : List String) : Prop :=
  path = [] ∨ ∃ attributes, tree.shown showHidden path = some attributes
    ∧ attributes.kind = .directory

end Tree

/-- The paths of which a comparison speaks: they are in a directory on
both sides, and on a side themselves. -/
def Compared (left right : Tree) (showHidden : Bool) (path : List String) : Prop :=
  (∀ above, above <+: path → above ≠ path →
      left.ShownDir showHidden above ∧ right.ShownDir showHidden above)
    ∧ (left.shown showHidden path ≠ none ∨ right.shown showHidden path ≠ none)

/-- The summary of an entry, as its listing shows it. -/
def Attributes.summary (attributes : Attributes) (root : Location) (path : List String) :
    EntrySummary where
  id := attributes.id
  location := root.descend path
  name := path.getLast?.getD ""
  kind := attributes.kind
  size := attributes.size
  modifiedAt := attributes.modifiedAt
  hidden := attributes.hidden

/-- Every directory of the tree is listed, with the tree's entries. -/
def Presents (providers : Providers) (root : Location) (tree : Tree) : Prop :=
  ∀ path, tree.IsDir path → ∃ entries, providers.listing (root.descend path) = some entries
    ∧ (entries.map EntrySummary.name).Nodup
    ∧ ∀ entry, entry ∈ entries ↔ ∃ name attributes, tree.get (path ++ [name]) = some attributes
          ∧ entry = attributes.summary root (path ++ [name])

def pathText (path : List String) : String := path.foldl relativeJoin ""

end FileManager.Comparison
