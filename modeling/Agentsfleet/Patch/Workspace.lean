import Mathlib.Data.List.Infix
import Agentsfleet.Recovery.Path

/-!
# The executor's workspace

Directories and regular files without links, the file calls over them, and the gate every
path of a tool passes before one is made.
-/

set_option autoImplicit false

namespace Agentsfleet.Patch

open Agentsfleet.Recovery (split join)

def maxReadBytes : Nat := 8 * 1024 * 1024
def workspaceRoot : String := "workspace"

/-! ## Paths -/

/-- A part `Path::components` drops. -/
def skipped (part : String) : Bool := part = "" || part = "."

/-- `Path::components`, without the root and a leading `.`. -/
def components (path : String) : List String := (split path).filter (! skipped ·)

def isAbsolute (path : String) : Bool := path.toList.head? = some '/'

/-- A path that ends in `/` or `/.` names a directory and no file. -/
def slashed (path : String) : Bool := (split path).getLast?.any skipped

/-- `Components::as_path` of what is left of a path. -/
def asPath (rest : List String) : String :=
  join ((rest.dropWhile skipped).reverse.dropWhile skipped).reverse

/-- `path.strip_prefix("/workspace")`. -/
def stripRoot (path : String) : Option String :=
  if isAbsolute path then
    match (split path).dropWhile skipped with
    | first :: rest => if first = workspaceRoot then some (asPath rest) else none
    | [] => none
  else none

/-! ## Answers -/

inductive ToolErrorCode where
  | sandboxUnavailable
  | invalidArguments
  | pathNotAllowed
  | fileNotFound
  | fileTooLarge
  | patchInvalid
  | hashMismatch
deriving DecidableEq

def ToolErrorCode.asStr : ToolErrorCode → String
  | .sandboxUnavailable => "sandbox_unavailable"
  | .invalidArguments => "invalid_arguments"
  | .pathNotAllowed => "path_not_allowed"
  | .fileNotFound => "file_not_found"
  | .fileTooLarge => "file_too_large"
  | .patchInvalid => "patch_invalid"
  | .hashMismatch => "hash_mismatch"

structure ToolOutput where
  text : String
  errorCode : Option ToolErrorCode
deriving DecidableEq

def ToolOutput.succeeded (text : String) : ToolOutput := ⟨text, none⟩

def ToolOutput.failed (code : ToolErrorCode) (detail : String) : ToolOutput :=
  ⟨"[" ++ code.asStr ++ "] " ++ detail, some code⟩

def leavesWorkspace : String := "leaves the workspace"
def longerThan : String := "is longer than"

/-- `path` relative to the workspace, or the refusal. -/
def inside (path : String) : Except ToolOutput String :=
  let relative := (stripRoot path).getD path
  if (components relative).all (· = "..") then
    .error (.failed .invalidArguments "path must name a file in the workspace")
  else if isAbsolute relative || (components relative).contains ".." then
    .error (.failed .pathNotAllowed (path ++ " " ++ leavesWorkspace))
  else .ok relative

def tooLong (path : String) : ToolOutput :=
  .failed .fileTooLarge (path ++ " " ++ longerThan ++ " " ++ toString maxReadBytes ++ " bytes")

/-! ## Files -/

def above (parts : List String) : List (List String) := parts.inits.filter (· ≠ parts)

theorem mem_above {parts place : List String} :
    place ∈ above parts ↔ place <+: parts ∧ place ≠ parts := by
  simp [above]

theorem above_trans {parts place higher : List String} (first : place ∈ above parts)
    (second : higher ∈ above place) : higher ∈ above parts := by
  obtain ⟨below, _⟩ := mem_above.mp first
  obtain ⟨again, apart⟩ := mem_above.mp second
  refine mem_above.mpr ⟨again.trans below, ?_⟩
  rintro rfl
  exact apart (again.eq_of_length_le below.length_le)

structure Workspace where
  root : List String
  files : List String → Option ByteArray
  directories : List String → Bool
  top : directories [] = true
  apart : ∀ place, (files place).isSome = true → directories place = false
  nested : ∀ place, ((files place).isSome = true ∨ directories place = true) →
    ∀ higher ∈ above place, directories higher = true

namespace Workspace

/-- A file stands above `place`. -/
def under (w : Workspace) (place : List String) : Bool :=
  (above place).any fun higher => (w.files higher).isSome

theorem not_under {w : Workspace} {place : List String} (free : w.under place = false) :
    ∀ higher ∈ above place, w.files higher = none := by
  intro higher member
  have each := List.any_eq_false.mp free higher member
  rwa [Bool.not_eq_true, Option.isSome_eq_false_iff, Option.isNone_iff_eq_none] at each

theorem under_eq_false {w : Workspace} {place : List String}
    (held : (w.files place).isSome = true ∨ w.directories place = true) :
    w.under place = false := by
  apply List.any_eq_false.mpr
  intro higher member file
  have directory := w.nested place held higher member
  rw [w.apart higher file] at directory
  cases directory

/-- `create_dir_all` of what is above `place`. -/
def makeParents (w : Workspace) (place : List String) (free : w.under place = false) :
    Workspace where
  root := w.root
  files := w.files
  directories other := w.directories other || decide (other ∈ above place)
  top := by rw [w.top, Bool.true_or]
  apart other file := by
    have fresh : other ∉ above place := by
      intro member
      rw [not_under free other member] at file
      cases file
    rw [w.apart other file, decide_eq_false fresh, Bool.or_false]
  nested other held higher member := by
    rw [Bool.or_eq_true, decide_eq_true_eq] at held ⊢
    rcases held with file | directory | made
    · exact .inl (w.nested other (.inl file) higher member)
    · exact .inl (w.nested other (.inr directory) higher member)
    · exact .inr (above_trans made member)

def put (w : Workspace) (place : List String) (content : ByteArray)
    (room : w.directories place = false ∧
      ∀ higher ∈ above place, w.directories higher = true) : Workspace where
  root := w.root
  files other := if other = place then some content else w.files other
  directories := w.directories
  top := w.top
  apart other file := by
    by_cases here : other = place
    · rw [here, room.1]
    · rw [if_neg here] at file
      exact w.apart other file
  nested other held higher member := by
    by_cases here : other = place
    · subst here
      exact room.2 higher member
    · rw [if_neg here] at held
      exact w.nested other held higher member

def remove (w : Workspace) (place : List String) : Workspace where
  root := w.root
  files other := if other = place then none else w.files other
  directories := w.directories
  top := w.top
  apart other file := by
    by_cases here : other = place
    · rw [if_pos here] at file
      cases file
    · rw [if_neg here] at file
      exact w.apart other file
  nested other held higher member := by
    by_cases here : other = place
    · rw [if_pos here] at held
      rcases held with file | directory
      · cases file
      · exact w.nested other (.inr directory) higher member
    · rw [if_neg here] at held
      exact w.nested other held higher member

end Workspace

/-! ## The file calls -/

inductive Failure where
  | pathRefused
  | notFound
  | notAFile
  | notADirectory
  | isADirectory
deriving DecidableEq

structure FileContent where
  data : ByteArray
  truncated : Bool

namespace Workspace

/-- `path` relative to the workspace, and whether it can name a file. -/
def inside (w : Workspace) (path : String) : Except Failure (List String × Bool) :=
  let found :=
    if isAbsolute path then
      if w.root <+: components path then
        some ((components path).drop w.root.length, false)
      else none
    else some (components path, slashed path)
  match found with
  | none => .error .pathRefused
  | some (parts, directory) =>
      if parts.contains ".." then .error .pathRefused else .ok (parts, directory)

def read (w : Workspace) (path : String) (maxBytes : Nat) : Except Failure FileContent :=
  match w.inside path with
  | .error failure => .error failure
  | .ok (place, directory) =>
      let limit := min maxBytes maxReadBytes
      match w.files place with
      | some content =>
          if directory then .error .notADirectory
          else .ok ⟨content.extract 0 limit, decide (limit < content.size)⟩
      | none =>
          if w.directories place then .error .notAFile
          else if w.under place then .error .notADirectory
          else .error .notFound

def write (w : Workspace) (path : String) (content : ByteArray) :
    Except Failure Unit × Workspace :=
  match w.inside path with
  | .error failure => (.error failure, w)
  | .ok (place, directory) =>
      if free : w.under place = false then
        if blocked : directory = true ∨ w.directories place = true then
          let failure := if (w.files place).isSome then .notADirectory else .isADirectory
          (.error failure, w.makeParents place free)
        else
          let made := w.makeParents place free
          have room : made.directories place = false ∧
              ∀ higher ∈ above place, made.directories higher = true := by
            rw [not_or] at blocked
            refine ⟨?_, fun higher member => ?_⟩
            · have self : place ∉ above place := fun member => (mem_above.mp member).2 rfl
              change (w.directories place || decide (place ∈ above place)) = false
              rw [Bool.eq_false_of_not_eq_true blocked.2, decide_eq_false self, Bool.or_false]
            · change (w.directories higher || decide (higher ∈ above place)) = true
              rw [decide_eq_true member, Bool.or_true]
          (.ok (), made.put place content room)
      else (.error .notADirectory, w)

def delete (w : Workspace) (path : String) : Except Failure Unit × Workspace :=
  match w.inside path with
  | .error failure => (.error failure, w)
  | .ok (place, directory) =>
      match w.files place with
      | some _ =>
          if directory then (.error .notADirectory, w) else (.ok (), w.remove place)
      | none =>
          if w.directories place then (.error .notAFile, w)
          else if w.under place then (.error .notADirectory, w)
          else (.error .notFound, w)

end Workspace

/-! ## What the gate lets through -/

/-- A path the gate let through names its place in the workspace. -/
structure Gated (path : String) : Prop where
  relative : isAbsolute path = false
  climbs : (components path).contains ".." = false

theorem gated_of_inside {path relative : String} (gate : inside path = .ok relative) :
    Gated relative := by
  unfold inside at gate
  dsimp only at gate
  split at gate
  · cases gate
  · split at gate
    · cases gate
    · rename_i stays
      obtain rfl := Except.ok.inj gate
      rw [Bool.or_eq_true, not_or, Bool.not_eq_true, Bool.not_eq_true] at stays
      exact ⟨stays.1, stays.2⟩

theorem Gated.inside {path : String} (gated : Gated path) (w : Workspace) :
    w.inside path = .ok (components path, slashed path) := by
  unfold Workspace.inside
  simp only [gated.relative, gated.climbs, Bool.false_eq_true, if_false]

end Agentsfleet.Patch
