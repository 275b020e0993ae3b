import Mathlib.Algebra.Group.Nat.Defs

/-!
# Usage

What a piece of work used and what it was priced at: the lines a settlement
carries and the usage log keeps.
-/

set_option autoImplicit false

namespace Agentsfleet.Billing

inductive WorkKey where
  | fleetLease (id : String)
  | authoringAttempt (id : String)
deriving DecidableEq

structure Account where
  tenant : String
  workspace : String
deriving DecidableEq

inductive Attribution where
  | fleet (fleet fleetName eventId : String)
  | setupChat
deriving DecidableEq

inductive Posture where
  | platform
  | selfManaged
deriving DecidableEq

/-- One line of usage: its `u32` number within its work, when it was made, and
what it used. -/
structure UsageLine where
  seq : Nat
  instant : Int
  inputTokens : UInt32
  cachedInputTokens : UInt32
  cacheWriteTokens : UInt32
  cacheWrite5mTokens : UInt32
  cacheWrite1hTokens : UInt32
  outputTokens : UInt32
  runtimeMs : UInt32
deriving DecidableEq

def UsageLine.runtime (seq : Nat) (instant : Int) (runtimeMs : UInt32) : UsageLine where
  seq := seq
  instant := instant
  inputTokens := 0
  cachedInputTokens := 0
  cacheWriteTokens := 0
  cacheWrite5mTokens := 0
  cacheWrite1hTokens := 0
  outputTokens := 0
  runtimeMs := runtimeMs

/-- What a context tier is measured against. -/
def UsageLine.wholePrompt (line : UsageLine) : Nat :=
  line.inputTokens.toNat + line.cachedInputTokens.toNat + line.cacheWriteTokens.toNat +
    line.cacheWrite5mTokens.toNat + line.cacheWrite1hTokens.toNat

structure RatedLine where
  usage : UsageLine
  price : Option String
  charged : Int
  unpricedTokens : Nat
deriving DecidableEq

structure Settlement where
  work : WorkKey
  payer : Account
  attribution : Attribution
  provider : String
  model : String
  posture : Posture
  lines : List RatedLine
deriving DecidableEq

/-! ## Ranges of line numbers -/

def daemonSeqBase : Nat := 2 ^ 31

/-- The first number of a paid decision, and the bound of the run time lines. -/
def decisionSeqBase : Nat := 3 * 2 ^ 30

def daemonSeqMax : Nat := decisionSeqBase - 1

def u32Max : Nat := 2 ^ 32 - 1

end Agentsfleet.Billing
