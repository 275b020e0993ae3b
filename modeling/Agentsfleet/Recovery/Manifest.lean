import Agentsfleet.Core.Id
import Agentsfleet.Core.JsonText
import Agentsfleet.Recovery.Path

/-!
# Checkpoint manifests

The entries a checkpoint is made of and the pages they travel in, with the text
and the bounds of a page.
-/

set_option autoImplicit false

namespace Agentsfleet.Recovery

open Agentsfleet.Core

structure CheckpointFile where
  path : String
  executable : Bool
  size : UInt64
  objects : List String
deriving DecidableEq

/-- A logical entry, or an explicit deletion relative to the retained base. -/
inductive CheckpointEntry where
  | file (content : CheckpointFile)
  | directory (path : String)
  | symlink (path target : String)
  | remove (path : String)
deriving DecidableEq

def CheckpointEntry.path : CheckpointEntry → String
  | .file content => content.path
  | .directory path => path
  | .symlink path _ => path
  | .remove path => path

structure CheckpointPage where
  pageNumber : Nat
  entries : List CheckpointEntry
  historyObjects : List String
deriving DecidableEq

def manifest (pages : List CheckpointPage) : List CheckpointEntry :=
  pages.flatMap CheckpointPage.entries

/-! ## Text -/

def CheckpointEntry.json : CheckpointEntry → String
  | .file content =>
      JsonText.object
        [("kind", JsonText.string "file"), ("path", JsonText.string content.path),
          ("executable", JsonText.bool content.executable),
          ("size", JsonText.number content.size.toNat),
          ("objects", JsonText.array (content.objects.map JsonText.string))]
  | .directory path =>
      JsonText.object [("kind", JsonText.string "directory"), ("path", JsonText.string path)]
  | .symlink path target =>
      JsonText.object
        [("kind", JsonText.string "symlink"), ("path", JsonText.string path),
          ("target", JsonText.string target)]
  | .remove path =>
      JsonText.object [("kind", JsonText.string "remove"), ("path", JsonText.string path)]

def CheckpointPage.json (page : CheckpointPage) : String :=
  JsonText.object
    [("page_number", JsonText.number page.pageNumber),
      ("entries", JsonText.array (page.entries.map CheckpointEntry.json)),
      ("history_objects", JsonText.array (page.historyObjects.map JsonText.string))]

def CheckpointEntry.bytes (entry : CheckpointEntry) : Nat := entry.json.utf8ByteSize

def CheckpointPage.bytes (page : CheckpointPage) : Nat := page.json.utf8ByteSize

/-! ## Bounds -/

def checkpointPageBytes : Nat := 1024 * 1024
def checkpointPages : Nat := 64
def maxPageEntries : Nat := 4096
def maxPageHistory : Nat := 256

/-- `char::is_control`. -/
def isControl (c : Char) : Bool := c.val < 32 || (127 ≤ c.val && c.val < 160)

def pathCharacters (value : String) : Bool :=
  !(value.toList.contains '\\' || value.toList.any isControl)

def lengthBytes (least most : Nat) (value : String) : Bool :=
  decide (least ≤ value.utf8ByteSize) && decide (value.utf8ByteSize ≤ most)

def relativePath (value : String) : Bool :=
  !((split value).any fun part => part == "" || part == "." || part == "..") &&
    pathCharacters value

def relativeLink (value : String) : Bool :=
  !(value.toList.head? == some '/') && pathCharacters value

def objectId (value : String) : Bool := (Uuid7.firstViolation value).isNone

def CheckpointFile.valid (file : CheckpointFile) : Bool :=
  lengthBytes 1 4096 file.path && relativePath file.path &&
    decide (file.size.toNat ≤ 25769803776) && decide (file.objects.length ≤ 3072) &&
      file.objects.all objectId

def CheckpointEntry.valid : CheckpointEntry → Bool
  | .file content => content.valid
  | .directory path => lengthBytes 1 4096 path && relativePath path
  | .symlink path target =>
      lengthBytes 1 4096 path && relativePath path && lengthBytes 1 4096 target &&
        relativeLink target
  | .remove path => lengthBytes 1 4096 path && relativePath path

def CheckpointPage.valid (page : CheckpointPage) : Bool :=
  decide (page.pageNumber ≤ 63) && decide (page.entries.length ≤ maxPageEntries) &&
    page.entries.all CheckpointEntry.valid &&
      decide (page.historyObjects.length ≤ maxPageHistory) && page.historyObjects.all objectId

end Agentsfleet.Recovery
