import Agentsfleet.Billing.Ledger
import Agentsfleet.Billing.Price
import Agentsfleet.Core.Clock

/-!
# Decision calls

One physical decision call's row, the receipts it can be answered with, and what
a receipt is worth: accounting reads usage and price, never the answer.
-/

set_option autoImplicit false

namespace Agentsfleet.Decision

open Agentsfleet.Core
open Agentsfleet.Billing

inductive CallState where
  | reserved
  | issued
  | known
  | unknown
  | notSent
deriving DecidableEq

structure DecisionUsage where
  inputTokens : UInt32
  outputTokens : UInt32
  cachedInputTokens : UInt32
  cacheWriteTokens : UInt32
deriving DecidableEq

def DecisionUsage.uncachedInput (usage : DecisionUsage) : Option UInt32 :=
  if usage.cachedInputTokens.toNat + usage.cacheWriteTokens.toNat ≤ u32Max ∧
      usage.cachedInputTokens.toNat + usage.cacheWriteTokens.toNat ≤ usage.inputTokens.toNat then
    some (usage.inputTokens - (usage.cachedInputTokens + usage.cacheWriteTokens))
  else none

inductive RetryDelay where
  | unspecified
  | withinBudget (milliseconds : Nat)
  | tooLong
deriving DecidableEq

inductive UnavailableCause where
  | providerStatus (status : Nat) (delay : RetryDelay)
  | other (cause : String)
deriving DecidableEq

inductive NotSentCause where
  | preflight
  | build
deriving DecidableEq

/-- A provider's reply: what accounting reads, and the outcome it does not. -/
structure DecisionResult where
  reportedModel : Option String
  usage : Option DecisionUsage
  outcome : String
deriving DecidableEq

inductive Receipt where
  | provider (result : DecisionResult)
  | unknown (cause : UnavailableCause)
  | notSent (cause : NotSentCause)
deriving DecidableEq

def Receipt.isUnknown : Receipt → Bool
  | .unknown _ => true
  | _ => false

/-- A row of `runner.decision_calls`; a goal's call names its task. -/
structure Call where
  id : String
  runner : String
  lease : String
  source : String
  fleet : String
  workspace : String
  tenant : String
  fleetName : String
  task : Option String
  fence : Int
  operation : String
  requestDigest : String
  assessmentId : String
  assessmentKey : String
  attempt : Nat
  retryOf : Option String
  logicalExpiresAt : Int
  status : CallState
  provider : String
  model : String
  quote : FrozenQuote
  sequence : Nat
  reservedNanos : Int
  issuedAt : Option Int
  accountedAt : Option Int
  knownUsage : Option DecisionUsage
  chargedNanos : Option Int
  canonicalDigest : Option String
  failureDigest : Option String
  failureReason : Option UnavailableCause
  failureRecordedAt : Option Int
  reportedModel : Option String
deriving DecidableEq

def Call.issued (call : Call) : Bool := call.issuedAt.isSome

def Call.accounted (call : Call) : Bool := call.accountedAt.isSome

inductive Refusal where
  | replayConflict
  | invalidTarget
  | notFound
  | staleFence
  | staleState
  | decisionUnavailable
  | limitExhausted
  | sequenceCorrupt
  | ledger (cause : BillingError)
  | conflict
deriving DecidableEq

/-! ## What a receipt is worth -/

inductive Plan where
  | replay
  | unknown (usage : Option DecisionUsage) (canonical : Bool)
  | known (usage : DecisionUsage) (charged : Int) (settlement : Settlement)
  | notSent
deriving DecidableEq

def unknown (call : Call) (digest : String) : Except Refusal Plan :=
  match call.failureDigest with
  | some saved => if saved = digest then .ok .replay else .error .replayConflict
  | none => .ok (.unknown none false)

def unpriced (call : Call) (usage : DecisionUsage) (digest : String) : Plan :=
  if call.canonicalDigest = some digest ∧ call.knownUsage = some usage then .replay
  else .unknown (some usage) true

def Call.settlement (call : Call) (rated : RatedLine) : Settlement where
  work := .fleetLease call.lease
  payer := ⟨call.tenant, call.workspace⟩
  attribution := .fleet call.fleet call.fleetName call.source
  provider := call.provider
  model := call.model
  posture := .platform
  lines := [rated]

def known (call : Call) (usage : DecisionUsage) (uncached : UInt32) (digest : String) :
    Except Refusal Plan :=
  if call.sequence ≤ u32Max ∧ decisionSeqBase ≤ call.sequence then
    match call.quote.rate (knownLine call.sequence call.quote.instant uncached
        usage.cachedInputTokens usage.cacheWriteTokens usage.outputTokens) with
    | .error _ => .ok (unpriced call usage digest)
    | .ok rated =>
        if rated.unpricedTokens = 0 then
          .ok (.known usage rated.charged (call.settlement rated))
        else .ok (unpriced call usage digest)
  else .error .sequenceCorrupt

def classify (call : Call) (receipt : Receipt) (digest : String) : Except Refusal Plan :=
  if call.canonicalDigest = some digest ∧ call.accounted = true then .ok .replay
  else if receipt.isUnknown = true ∧ call.failureDigest = some digest then .ok .replay
  else if call.accounted = true ∨ call.canonicalDigest.any (fun saved => saved ≠ digest) then
    .error .replayConflict
  else if call.issued = false then .error .invalidTarget
  else
    match receipt with
    | .provider result =>
        match result.usage.bind fun usage => usage.uncachedInput.map fun rest => (usage, rest) with
        | some (usage, uncached) => known call usage uncached digest
        | none => unknown call digest
    | .unknown _ => unknown call digest
    | .notSent _ =>
        if call.failureDigest = none ∧ call.knownUsage = none then .ok .notSent
        else .error .replayConflict

structure Accounting where
  state : CallState
  usage : Option DecisionUsage
  charged : Option Int
  canonical : Bool
  failure : Bool
  settlement : Option Settlement
deriving DecidableEq

def Accounting.of : Plan → Option Accounting
  | .replay => none
  | .unknown usage canonical =>
      some ⟨.unknown, usage, none, canonical, !canonical, none⟩
  | .known usage charged settlement =>
      some ⟨.known, some usage, some charged, true, false, some settlement⟩
  | .notSent => some ⟨.notSent, none, some 0, true, false, none⟩

/-- `record.sql`: every column keeps what it first held. -/
def Call.recorded (now : Int) (receipt : Receipt) (digest : String) (accounting : Accounting)
    (call : Call) : Call :=
  { call with
    status := accounting.state
    accountedAt :=
      if accounting.charged.isSome then some (call.accountedAt.getD (truncated now))
      else call.accountedAt
    knownUsage := call.knownUsage.or accounting.usage
    chargedNanos := call.chargedNanos.or accounting.charged
    canonicalDigest := call.canonicalDigest.or (if accounting.canonical then some digest else none)
    failureDigest := call.failureDigest.or (if accounting.failure then some digest else none)
    failureReason := call.failureReason.or
      (match receipt with | .unknown cause => some cause | _ => none)
    failureRecordedAt :=
      if call.failureDigest = none ∧ accounting.failure = true then some (truncated now)
      else call.failureRecordedAt
    reportedModel := call.reportedModel.or
      (match receipt with | .provider result => result.reportedModel | _ => none) }

theorem classify_open {call : Call} {receipt : Receipt} {digest : String} {plan : Plan}
    (classified : classify call receipt digest = .ok plan) (writes : plan ≠ .replay) :
    call.accountedAt = none ∧ call.issued = true := by
  unfold classify at classified
  split at classified
  · cases classified
    exact absurd rfl writes
  · split at classified
    · cases classified
      exact absurd rfl writes
    · split at classified
      · exact nomatch classified
      · rename_i unsettled
        split at classified
        · exact nomatch classified
        · rename_i issued
          rw [not_or] at unsettled
          refine ⟨?_, by simpa using issued⟩
          simpa [Call.accounted] using unsettled.1

theorem classify_known {call : Call} {receipt : Receipt} {digest : String}
    {usage : DecisionUsage} {charged : Int} {settlement : Settlement}
    (classified : classify call receipt digest = .ok (.known usage charged settlement)) :
    ∃ rated, settlement = call.settlement rated ∧ rated.charged = charged ∧
      ∃ uncached, call.quote.rate (knownLine call.sequence call.quote.instant uncached
        usage.cachedInputTokens usage.cacheWriteTokens usage.outputTokens) = .ok rated := by
  have unknown_not : ∀ call digest,
      unknown call digest ≠ .ok (.known usage charged settlement) := by
    intro call digest same
    unfold unknown at same
    split at same
    · split at same
      · exact nomatch same
      · exact nomatch same
    · exact nomatch same
  have unpriced_not : ∀ used, unpriced call used digest ≠ .known usage charged settlement := by
    intro used same
    unfold unpriced at same
    split at same
    · exact nomatch same
    · exact nomatch same
  unfold classify at classified
  split at classified
  · exact nomatch classified
  · split at classified
    · exact nomatch classified
    · split at classified
      · exact nomatch classified
      · split at classified
        · exact nomatch classified
        · split at classified
          · split at classified
            · rename_i used uncached _
              unfold known at classified
              split at classified
              · generalize priced : call.quote.rate (knownLine call.sequence call.quote.instant
                  uncached used.cachedInputTokens used.cacheWriteTokens used.outputTokens) =
                    answer at classified
                cases answer with
                | error cause => exact absurd (Except.ok.inj classified) (unpriced_not used)
                | ok rated =>
                    simp only at classified
                    split at classified
                    · cases classified
                      exact ⟨rated, rfl, rfl, uncached, priced⟩
                    · exact absurd (Except.ok.inj classified) (unpriced_not used)
              · exact nomatch classified
            · exact absurd classified (unknown_not call digest)
          · exact absurd classified (unknown_not call digest)
          · split at classified
            · exact nomatch classified
            · exact nomatch classified

end Agentsfleet.Decision
