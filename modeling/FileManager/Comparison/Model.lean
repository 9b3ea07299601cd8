/-
Comparisons of two trees, and the sync plans made of them
(`fm-comparison`, `model.rs`, `path.rs` and `sync.rs`).
-/
import FileManager.Vfs
import FileManager.Transfers.Files

namespace FileManager.Comparison

open Vfs (Instant)

-- ==== the model

inductive ComparisonCriteria
  | nameOnly
  | sizeAndTimestamp
  | contentHash
deriving DecidableEq

inductive ComparisonStatus
  | onlyLeft
  | onlyRight
  | newer
  | older
  | differentSize
  | identical
  | typeMismatch
deriving DecidableEq

structure ComparisonEntrySide where
  kind : EntryKind
  size : Option Nat
  modifiedAt : Option Instant
  contentHash : Option String

structure ComparisonEntry where
  relativePath : String
  left : Option ComparisonEntrySide
  right : Option ComparisonEntrySide
  status : ComparisonStatus

def timestampToleranceSeconds : Nat := 2

/-- `TimeDelta::num_seconds`: whole seconds, towards zero. -/
def numSeconds (nanoseconds : Int) : Int := nanoseconds.tdiv 1000000000

def timestampDirection (left right : ComparisonEntrySide) : Option ComparisonStatus :=
  match left.modifiedAt, right.modifiedAt with
  | some leftTime, some rightTime =>
    if (numSeconds (leftTime - rightTime)).natAbs < timestampToleranceSeconds then none
    else some (if leftTime > rightTime then .newer else .older)
  | _, _ => none

def classifyBySizeAndTimestamp (left right : ComparisonEntrySide) : ComparisonStatus :=
  match timestampDirection left right with
  | some direction => direction
  | none => if left.size ≠ right.size then .differentSize else .identical

def classifyByContentHash (left right : ComparisonEntrySide) : ComparisonStatus :=
  match left.contentHash, right.contentHash with
  | some leftHash, some rightHash =>
    if leftHash = rightHash then .identical
    else (timestampDirection left right).getD .differentSize
  | _, _ => classifyBySizeAndTimestamp left right

def classify (left right : ComparisonEntrySide) (criteria : ComparisonCriteria) :
    ComparisonStatus :=
  if left.kind ≠ right.kind then .typeMismatch
  else if left.kind = .directory then .identical
  else match criteria with
    | .nameOnly => .identical
    | .sizeAndTimestamp => classifyBySizeAndTimestamp left right
    | .contentHash => classifyByContentHash left right

-- ==== relative paths

/-- `str::split`. -/
def split (sep : Char) (text : String) : List String := (text.toList.splitOn sep).map String.ofList

def relativeJoin (relativePath name : String) : String :=
  if relativePath = "" then name else relativePath ++ "/" ++ name

-- ==== sync plans

inductive SyncMode
  | mirrorLeftToRight
  | mirrorRightToLeft
  | twoWayUpdate

inductive SyncAction
  | copyLeftToRight
  | copyRightToLeft
  | deleteLeft
  | deleteRight
  | skip

structure SyncPlanItem where
  relativePath : String
  status : ComparisonStatus
  action : SyncAction
  left : Option ComparisonEntrySide
  right : Option ComparisonEntrySide

def defaultAction (status : ComparisonStatus) (mode : SyncMode) : SyncAction :=
  match mode, status with
  | .mirrorLeftToRight, .onlyLeft | .mirrorLeftToRight, .newer
  | .mirrorLeftToRight, .older | .mirrorLeftToRight, .differentSize => .copyLeftToRight
  | .mirrorLeftToRight, .onlyRight => .deleteRight
  | .mirrorLeftToRight, .identical | .mirrorLeftToRight, .typeMismatch => .skip
  | .mirrorRightToLeft, .onlyRight | .mirrorRightToLeft, .newer
  | .mirrorRightToLeft, .older | .mirrorRightToLeft, .differentSize => .copyRightToLeft
  | .mirrorRightToLeft, .onlyLeft => .deleteLeft
  | .mirrorRightToLeft, .identical | .mirrorRightToLeft, .typeMismatch => .skip
  | .twoWayUpdate, .onlyLeft | .twoWayUpdate, .newer => .copyLeftToRight
  | .twoWayUpdate, .onlyRight | .twoWayUpdate, .older => .copyRightToLeft
  | .twoWayUpdate, .differentSize | .twoWayUpdate, .identical
  | .twoWayUpdate, .typeMismatch => .skip

def generateSyncPlan (entries : List ComparisonEntry) (mode : SyncMode) : List SyncPlanItem :=
  (entries.filter fun entry => entry.status ≠ .identical).map fun entry =>
    { relativePath := entry.relativePath
      status := entry.status
      action := defaultAction entry.status mode
      left := entry.left
      right := entry.right }

end FileManager.Comparison
