import Agentsfleet.Patch.Workspace

/-!
# Applying a patch

Every hunk is planned over what the hunks before it leave, and only then does the first
one land.  Parsing, chunk matching and the executor's wording are the libraries'.
-/

set_option autoImplicit false

namespace Agentsfleet.Patch

/-! ## Hunks -/

inductive Hunk (Chunk : Type) where
  | addFile (path contents : String)
  | deleteFile (path : String)
  | updateFile (path : String) (movePath : Option String) (chunks : List Chunk)

/-- A file after its chunks landed, and what changed. -/
structure Updated where
  contents : String
  added : Nat
  removed : Nat

structure Libraries (Chunk : Type) where
  parsePatch : String → Except String (List (Hunk Chunk))
  updated : String → String → List Chunk → Except String Updated
  wireMessage : Failure → String

/-- One hunk, read and computed, waiting to land. -/
inductive Planned (Chunk : Type) where
  | add (path contents : String)
  | delete (path : String) (lines : Nat)
  | update (path : String) (movedTo : Option String) (chunks : List Chunk)
      (added removed : Nat)

def key (path : String) : List String := components path

/-- What the hunks planned so far leave at each path they touched. -/
abbrev Overlay := List String → Option (Option String)

def removedEarlier : String := "was moved or deleted earlier in this patch"

/-- `str::lines().count()`. -/
def lineCount (text : String) : Nat :=
  text.toList.count '\n' +
    match text.toList.getLast? with
    | some '\n' | none => 0
    | some _ => 1

section Apply

variable {Chunk : Type} (lib : Libraries Chunk)

def failed (failure : Failure) : ToolOutput :=
  match failure with
  | .pathRefused => .failed .pathNotAllowed (lib.wireMessage failure)
  | .notFound => .failed .fileNotFound (lib.wireMessage failure)
  | .notAFile | .notADirectory | .isADirectory =>
      .failed .sandboxUnavailable (lib.wireMessage failure)

def invalid (why : String) : ToolOutput := .failed .patchInvalid why

/-- The whole of `path` as text, or the refusal. -/
def whole (w : Workspace) (path : String) : Except ToolOutput String :=
  match w.read path maxReadBytes with
  | .error failure => .error (failed lib failure)
  | .ok fetched =>
      if fetched.truncated then .error (tooLong path)
      else
        match String.fromUTF8? fetched.data with
        | some text => .ok text
        | none =>
            .error (.failed .invalidArguments (path ++ " is not text, so it cannot be edited"))

namespace Overlay

/-- The text at `path`: what an earlier hunk left, or the file itself. -/
def text (overlay : Overlay) (w : Workspace) (path : String) : Except ToolOutput String :=
  match overlay (key path) with
  | some (some text) => .ok text
  | some none => .error (.failed .fileNotFound (path ++ " " ++ removedEarlier))
  | none => whole lib w path

def leave (overlay : Overlay) (path : String) (text : Option String) : Overlay :=
  fun place => if place = key path then some text else overlay place

def update (overlay : Overlay) (path : String) (movedTo : Option String) (text : String) :
    Overlay :=
  let overlay' := if movedTo.isSome then overlay.leave path none else overlay
  overlay'.leave (movedTo.getD path) (some text)

end Overlay

/-- Refuses a hunk leaving `text` at `path` when `whole` could not read it back. -/
def fits (path text : String) : Except ToolOutput Unit :=
  if maxReadBytes < text.utf8ByteSize then .error (tooLong path) else .ok ()

/-- `hunk` read and computed from what the hunks before it leave in `overlay`. -/
def plan (w : Workspace) (overlay : Overlay) :
    Hunk Chunk → Except ToolOutput (Planned Chunk × Overlay)
  | .addFile path contents => do
      let path ← inside path
      fits path contents
      return (.add path contents, overlay.leave path (some contents))
  | .deleteFile path => do
      let path ← inside path
      let text ← overlay.text lib w path
      return (.delete path (lineCount text), overlay.leave path none)
  | .updateFile path movePath chunks => do
      let path ← inside path
      let movedTo ← movePath.mapM inside
      -- a move to the path the file already has is an update
      let movedTo := movedTo.filter (key · ≠ key path)
      let original ← overlay.text lib w path
      let updated ← (lib.updated path original chunks).mapError invalid
      fits (movedTo.getD path) updated.contents
      return (.update path movedTo chunks updated.added updated.removed,
        overlay.update path movedTo updated.contents)

def planAll (w : Workspace) :
    Overlay → List (Hunk Chunk) → Except ToolOutput (List (Planned Chunk) × Overlay)
  | overlay, [] => .ok ([], overlay)
  | overlay, hunk :: hunks => do
      let (planned, overlay) ← plan lib w overlay hunk
      let (rest, overlay) ← planAll w overlay hunks
      return (planned :: rest, overlay)

/-! ## Landing -/

def answer (result : Except Failure Unit × Workspace) : Except ToolOutput Unit × Workspace :=
  (result.1.mapError (failed lib), result.2)

def write (w : Workspace) (path text : String) : Except ToolOutput Unit × Workspace :=
  answer lib (w.write path text.toUTF8)

def delete (w : Workspace) (path : String) : Except ToolOutput Unit × Workspace :=
  answer lib (w.delete path)

def land (w : Workspace) : Planned Chunk → Except ToolOutput Unit × Workspace
  | .add path contents => write lib w path contents
  | .delete path _ => delete lib w path
  | .update path movedTo chunks _ _ =>
      let updated := do
        let now ← whole lib w path
        let updated ← (lib.updated path now chunks).mapError invalid
        fits (movedTo.getD path) updated.contents
        return updated
      match updated with
      | .error output => (.error output, w)
      | .ok updated =>
          match write lib w (movedTo.getD path) updated.contents with
          | (.error output, w') => (.error output, w')
          | (.ok (), w') => if movedTo.isSome then delete lib w' path else (.ok (), w')

def landAll : Workspace → List (Planned Chunk) → Except ToolOutput Unit × Workspace
  | w, [] => (.ok (), w)
  | w, step :: rest =>
      match land lib w step with
      | (.error output, w') => (.error output, w')
      | (.ok (), w') => landAll w' rest

/-! ## The summary -/

def Planned.listed : Planned Chunk → Char × String
  | .add path _ => ('A', path)
  | .delete path _ => ('D', path)
  | .update path movedTo _ _ _ => ('M', movedTo.getD path)

def Planned.counts : Planned Chunk → Nat × Nat
  | .add _ contents => (lineCount contents, 0)
  | .delete _ lines => (0, lines)
  | .update _ _ _ added removed => (added, removed)

def summary (planned : List (Planned Chunk)) : String :=
  let listed := ['A', 'M', 'D'].flatMap fun mark =>
    (planned.map Planned.listed).filterMap fun (other, path) =>
      if other = mark then some ("\n" ++ String.singleton mark ++ " " ++ path) else none
  let counts := planned.map Planned.counts
  let added := counts.foldl (fun total count => total + count.1) 0
  let removed := counts.foldl (fun total count => total + count.2) 0
  String.join ("Success. Updated the following files:" :: listed) ++
    "\n+" ++ toString added ++ " −" ++ toString removed

def apply (w : Workspace) (patch : String) : Except ToolOutput ToolOutput × Workspace :=
  match (lib.parsePatch patch).mapError invalid with
  | .error output => (.error output, w)
  | .ok hunks =>
      if hunks.isEmpty then (.error (invalid "the patch changes no file"), w)
      else
        match planAll lib w (fun _ => none) hunks with
        | .error output => (.error output, w)
        | .ok (planned, _) =>
            let (landed, w') := landAll lib w planned
            (landed.map fun _ => .succeeded (summary planned), w')

end Apply

end Agentsfleet.Patch
