/-
Any two trees can be presented: providers that keep one below a folder
`left` and the other below a folder `right`.
-/
import FileManager.Comparison.Tree

namespace FileManager.Comparison

open Vfs (EntrySummary Providers)
open Checksums (Digests)
open List

-- ==== trees

/-- The nodes have accepted names and stand in directories. -/
def hangTogether (nodes : List (List String × Attributes)) : Bool :=
  nodes.all fun node =>
    decide (node.1 ≠ []) && node.1.all (fun name => (validateName name).isOk)
      && (decide (node.1.dropLast = [])
        || (Keyed.get nodes node.1.dropLast).any fun attributes =>
          decide (attributes.kind = .directory))

/-- A tree from a list of nodes that has been checked. -/
def Tree.ofNodes (nodes : List (List String × Attributes))
    (distinct : (nodes.map Prod.fst).Nodup) (hangs : hangTogether nodes = true) : Tree where
  nodes := nodes
  distinct := distinct
  rooted := by
    cases hroot : Keyed.get nodes [] with
    | none => rfl
    | some attributes =>
      have hnode := all_eq_true.mp hangs _ ((Keyed.mem_iff_get distinct).mpr hroot)
      simp at hnode
  named := by
    intro node hnode name hname
    have hall := all_eq_true.mp hangs node hnode
    simp only [Bool.and_eq_true] at hall
    have hok := all_eq_true.mp hall.1.2 name hname
    cases hvalid : validateName name with
    | error error => rw [hvalid] at hok; cases hok
    | ok _ => rfl
  hangs := by
    intro path name hget
    obtain ⟨attributes, hattributes⟩ := Option.ne_none_iff_exists'.mp hget
    have hnode := all_eq_true.mp hangs _ ((Keyed.mem_iff_get distinct).mpr hattributes)
    simp only [dropLast_concat, Bool.and_eq_true, Bool.or_eq_true, decide_eq_true_eq,
      Option.any_eq_true] at hnode
    exact hnode.2

def Tree.entriesOf (tree : Tree) (root : Location) (path : List String) : List EntrySummary :=
  (tree.nodes.filter fun node => node.1.dropLast = path ∧ node.1 ≠ []).map fun node =>
    node.2.summary root node.1

theorem Tree.nodup_entriesOf (tree : Tree) (root : Location) (path : List String) :
    ((tree.entriesOf root path).map EntrySummary.name).Nodup := by
  unfold Tree.entriesOf
  rw [map_map]
  have hnodup : (tree.nodes.filter fun node => node.1.dropLast = path ∧ node.1 ≠ []).Nodup :=
    (tree.distinct.of_map _).filter _
  refine List.Nodup.map_on ?_ hnodup
  intro node hnode node' hnode' hname
  obtain ⟨hmem, hdir⟩ := mem_filter.mp hnode
  obtain ⟨hmem', hdir'⟩ := mem_filter.mp hnode'
  rw [decide_eq_true_eq] at hdir hdir'
  obtain ⟨hparent, hne⟩ := hdir
  obtain ⟨hparent', hne'⟩ := hdir'
  refine inj_on_of_nodup_map tree.distinct hmem hmem' ?_
  -- the same directory, and the same last name
  have hlast : node.1.getLast?.getD "" = node'.1.getLast?.getD "" := hname
  rw [List.getLast?_eq_some_getLast hne, List.getLast?_eq_some_getLast hne'] at hlast
  rw [← dropLast_concat_getLast hne, ← dropLast_concat_getLast hne', hparent, hparent',
    show node.1.getLast hne = node'.1.getLast hne' from hlast]

theorem Tree.mem_entriesOf (tree : Tree) (root : Location) (path : List String)
    (entry : EntrySummary) :
    entry ∈ tree.entriesOf root path ↔ ∃ name attributes,
      tree.get (path ++ [name]) = some attributes
        ∧ entry = attributes.summary root (path ++ [name]) := by
  unfold Tree.entriesOf
  rw [mem_map]
  constructor
  · intro hentry
    obtain ⟨node, hnode, rfl⟩ := hentry
    obtain ⟨hmem, hdir⟩ := mem_filter.mp hnode
    obtain ⟨hparent, hne⟩ := decide_eq_true_eq.mp hdir
    have hpath : path ++ [node.1.getLast hne] = node.1 := by
      rw [← hparent]
      exact dropLast_concat_getLast hne
    refine ⟨node.1.getLast hne, node.2, ?_, ?_⟩
    · rw [hpath]
      exact (Keyed.mem_iff_get tree.distinct).mp hmem
    · rw [hpath]
  · intro hentry
    obtain ⟨name, attributes, hget, rfl⟩ := hentry
    refine ⟨(path ++ [name], attributes), mem_filter.mpr ⟨?_, ?_⟩, rfl⟩
    · exact (Keyed.mem_iff_get tree.distinct).mpr hget
    · simp

-- ==== providers

def leftFolder : Location := ⟨"local", "", ["left"]⟩

def rightFolder : Location := ⟨"local", "", ["right"]⟩

/-- Two trees side by side, and what the files' streams give. -/
def sideBySide (left right : Tree)
    (chunks : Location → Except VfsError (List (Except String Vfs.Bytes))) : Providers where
  lists := fun _ => true
  pages := fun location =>
    match location.uri.segments with
    | [] => .last []
    | folder :: path =>
      .last (if folder = "left" then left.entriesOf leftFolder path
        else right.entriesOf rightFolder path)
  chunks := chunks
  looks := fun _ => 0

theorem presents_left (left right : Tree)
    (chunks : Location → Except VfsError (List (Except String Vfs.Bytes))) :
    Presents (sideBySide left right chunks) leftFolder left :=
  fun path _ => ⟨left.entriesOf leftFolder path, rfl, left.nodup_entriesOf leftFolder path,
    left.mem_entriesOf leftFolder path⟩

theorem presents_right (left right : Tree)
    (chunks : Location → Except VfsError (List (Except String Vfs.Bytes))) :
    Presents (sideBySide left right chunks) rightFolder right :=
  fun path _ => ⟨right.entriesOf rightFolder path, rfl, right.nodup_entriesOf rightFolder path,
    right.mem_entriesOf rightFolder path⟩

-- ==== samples

/-- What a provider reports of a directory. -/
def plainDirectory : Attributes where
  id := 0
  kind := .directory
  size := none
  modifiedAt := none
  hidden := false

/-- What a provider reports of a file of two bytes. -/
def plainFile : Attributes where
  id := 1
  kind := .file
  size := some 2
  modifiedAt := none
  hidden := false

/-- The bytes `ab`. -/
def plainContent : Vfs.Bytes := [97, 98]

/-- The SHA-256 digest of the bytes `ab`; of others it does not
matter. -/
def plainDigests : Digests := fun _ content =>
  if content = plainContent then
    "fb8e20fc2e4c3f248c60c39bd652f3c1347298bb977b8b4d5903b85055620603"
  else ""

/-- Two trees side by side, every file with the bytes `ab`. -/
def plainEnv (left right : Tree) : Env where
  providers := sideBySide left right fun _ => .ok [.ok plainContent]
  digests := plainDigests
  token := .idle
  elapsed := fun _ => false

def fileTree (attributes : Attributes) : Tree :=
  .ofNodes [(["f"], attributes)] (nodup_singleton _) rfl

end FileManager.Comparison
