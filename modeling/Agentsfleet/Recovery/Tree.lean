import Agentsfleet.Core.Bounds
import Agentsfleet.Recovery.Links
import Mathlib.Data.Finset.Basic

/-!
# The daemon's expanded tree

Manifest entries are applied to one tree, and a commit verifies it: its counts,
its directories, and every link, each resolved through the others with what it
found cached.
-/

set_option autoImplicit false

namespace Agentsfleet.Recovery

open Agentsfleet.Core
open Agentsfleet.Library

inductive TaskRefusal where
  | limitExhausted
  | checkpointIncompatible
deriving DecidableEq

structure Node where
  directory : Bool
  size : UInt64
  target : Option String
deriving DecidableEq

structure Tree where
  nodes : SortedMap String Node

structure Resolved where
  components : List String
  substitutions : Nat

structure Memo where
  cache : SortedMap String Resolved
  visiting : Finset String

def Memo.enter (memo : Memo) (path : String) : Memo :=
  { memo with visiting := insert path memo.visiting }

def Memo.leave (memo : Memo) (path : String) (resolved : Resolved) : Memo :=
  { cache := memo.cache.insert path resolved
    visiting := memo.visiting.erase path }

def maxLinks : Nat := 40
def maxNodes : Nat := 400000

namespace Tree

/-! ## Entries -/

/-- The paths below `path`: from `path/` on, while they begin with it. -/
def below {V : Type} (nodes : SortedMap String V) (path : String) : List String :=
  (nodes.keysFrom (path ++ "/")).takeWhile (isBelow path)

def prune {V : Type} (nodes : SortedMap String V) (path : String) : SortedMap String V :=
  (below (nodes.remove path) path).foldl SortedMap.remove (nodes.remove path)

def put (tree : Tree) (path : String) (node : Node) : Except TaskRefusal Tree :=
  let nodes := tree.nodes.insert path node
  if exceeds maxNodes nodes.size then .error .limitExhausted else .ok ⟨nodes⟩

def apply (tree : Tree) : CheckpointEntry → Except TaskRefusal Tree
  | .file content => tree.put content.path ⟨false, content.size, none⟩
  | .directory path => tree.put path ⟨true, 0, none⟩
  | .symlink path target => tree.put path ⟨false, 0, some target⟩
  | .remove path => .ok ⟨prune tree.nodes path⟩

/-! ## Verification -/

def target (tree : Tree) (path : String) : Option String :=
  (tree.nodes.get path).bind Node.target

def links (tree : Tree) : List (String × String) :=
  (tree.nodes.filterMap fun _ node => node.target).entries

/-- The loop over a target's parts; `follow` resolves a link met on the way. -/
def expand (tree : Tree) (follow : String → Memo → Except TaskRefusal (Resolved × Memo)) :
    List String → Resolved → Memo → Except TaskRefusal (Resolved × Memo)
  | [], resolved, memo => .ok (resolved, memo)
  | part :: rest, resolved, memo =>
      if part = "" ∨ part = "." then tree.expand follow rest resolved memo
      else if part = ".." then
        if resolved.components = [] then .error .checkpointIncompatible
        else
          tree.expand follow rest
            ⟨resolved.components.dropLast, resolved.substitutions⟩ memo
      else
        let current := join (resolved.components ++ [part])
        if (tree.target current).isSome then
          match follow current memo with
          | .error refused => .error refused
          | .ok (link, memo) =>
              -- The checked sum refuses an overflow as it refuses too many.
              let substitutions := resolved.substitutions + link.substitutions
              if maxLinks < substitutions then .error .checkpointIncompatible
              else tree.expand follow rest ⟨link.components, substitutions⟩ memo
        else
          tree.expand follow rest
            ⟨resolved.components ++ [part], resolved.substitutions⟩ memo

/-- `resolve` at a depth that leaves `left` of its limit. -/
def resolve (tree : Tree) : Nat → String → Memo → Except TaskRefusal (Resolved × Memo)
  | 0, path, memo =>
      match memo.cache.get path with
      | some resolved => .ok (resolved, memo)
      | none => .error .checkpointIncompatible
  | left + 1, path, memo =>
      match memo.cache.get path with
      | some resolved => .ok (resolved, memo)
      | none =>
          if path ∈ memo.visiting then .error .checkpointIncompatible
          else
            match tree.target path with
            | none => .error .checkpointIncompatible
            | some target =>
                match tree.expand (tree.resolve left) (split target) ⟨parentParts path, 1⟩
                    (memo.enter path) with
                | .error refused => .error refused
                | .ok (resolved, memo) => .ok (resolved, memo.leave path resolved)

/-- Whether an entry lies beneath a path that is held and is no directory. -/
def misplaced (tree : Tree) (path : String) : Bool :=
  (ancestors path).any fun ancestor =>
    match tree.nodes.get ancestor with
    | some parent => !parent.directory
    | none => false

def verifyNodes (tree : Tree) : List (String × Node) → Memo → Except TaskRefusal Unit
  | [], _ => .ok ()
  | (path, node) :: rest, memo =>
      if tree.misplaced path then .error .checkpointIncompatible
      else if node.target.isSome then
        match tree.resolve maxLinks path memo with
        | .error refused => .error refused
        | .ok (_, memo) => tree.verifyNodes rest memo
      else tree.verifyNodes rest memo

def addSizes : UInt64 → List (String × Node) → Option UInt64
  | sum, [] => some sum
  | sum, (_, node) :: rest =>
      match checkedAdd sum node.size with
      | none => none
      | some sum => addSizes sum rest

def verify (tree : Tree) (expectedEntries : UInt32) (expectedBytes : UInt64) :
    Except TaskRefusal Unit :=
  match addSizes 0 tree.nodes.entries with
  | none => .error .limitExhausted
  | some bytes =>
      if tree.nodes.size ≠ expectedEntries.toNat ∨ bytes ≠ expectedBytes then
        .error .checkpointIncompatible
      else tree.verifyNodes tree.nodes.entries ⟨SortedMap.empty, ∅⟩

end Tree

end Agentsfleet.Recovery
