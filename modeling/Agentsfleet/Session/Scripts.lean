import Mathlib.Data.List.Basic
import Mathlib.Algebra.Order.Ring.Int

/-!
# The device login's scripts

The blob of one command-line login and the three scripts that move it.  A script
runs to its end on the server, so each is one function from what the key holds to
what it holds next and the table the script answers.  A table ends at its first
nil on the way to the client, which reads it back by its tag.
-/

set_option autoImplicit false

namespace Agentsfleet.Session

def sessionTtl : Int := 300
def consumeReplayWindow : Int := 60000
def maxVerifyAttempts : Nat := 5

inductive SessionStatus where
  | pending
  | verificationPending
  | consumed
  | expired
  | aborted
deriving DecidableEq, Repr

namespace SessionStatus

def asStr : SessionStatus → String
  | .pending => "pending"
  | .verificationPending => "verification_pending"
  | .consumed => "consumed"
  | .expired => "expired"
  | .aborted => "aborted"

def isTerminal : SessionStatus → Bool
  | .consumed | .expired | .aborted => true
  | .pending | .verificationPending => false

end SessionStatus

structure SessionState where
  sessionId : String
  status : SessionStatus
  cliPublicKey : String
  tokenName : String
  dashboardPublicKey : Option String := none
  ciphertext : Option String := none
  nonce : Option String := none
  verificationCodeHmacHex : Option String := none
  verificationAttempts : Nat := 0
  createdAtMs : Int
  expiresAtMs : Int
  approvedAtMs : Option Int := none
  consumedAtMs : Option Int := none
  abortedReason : Option String := none
  clerkUserId : Option String := none
  consumedClientFingerprintHex : Option String := none
  consumePayloadExpiresAtMs : Option Int := none
deriving DecidableEq, Repr

/-- A login as `open` stores it. -/
def opened (sessionId cliPublicKey tokenName : String) (now : Int) : SessionState :=
  { sessionId := sessionId
    status := .pending
    cliPublicKey := cliPublicKey
    tokenName := tokenName
    createdAtMs := now
    expiresAtMs := now + sessionTtl * 1000 }

structure Approval where
  dashboardPublicKey : String
  ciphertext : String
  nonce : String
  codeHmacHex : String
  approver : String
deriving DecidableEq, Repr

inductive AbortReason where
  | explicitCancel
  | rateLimitExceeded
deriving DecidableEq, Repr

def AbortReason.asStr : AbortReason → String
  | .explicitCancel => "explicit_cancel"
  | .rateLimitExceeded => "rate_limit_exceeded"

/-! ## Scripts -/

def table : List (Option String) → List String
  | some field :: rest => field :: table rest
  | _ => []

/-- `approve.lua` -/
def approveScript (blob : Option SessionState) (approval : Approval) (now : Int) :
    Option SessionState × List String :=
  match blob with
  | none => (blob, ["missing"])
  | some s =>
      if s.status ≠ .pending then (blob, ["conflict", s.status.asStr])
      else
        (some { s with
          status := .verificationPending
          dashboardPublicKey := some approval.dashboardPublicKey
          ciphertext := some approval.ciphertext
          nonce := some approval.nonce
          verificationCodeHmacHex := some approval.codeHmacHex
          clerkUserId := some approval.approver
          approvedAtMs := some now
          expiresAtMs := now + sessionTtl * 1000 }, ["ok"])

/-- The bytes `string.byte` reads. -/
def bytes (text : String) : List UInt8 := text.toByteArray.data.toList

def apart (a b : UInt8) : Int := ((a.toNat : Int) - b.toNat) * ((a.toNat : Int) - b.toNat)

def diff (stored submitted : String) : Int :=
  let a := bytes stored
  let b := bytes submitted
  (List.zipWith apart a b).sum + ((a.length : Int) - b.length) * ((a.length : Int) - b.length)

/-- `verify_consume.lua` -/
def verifyConsumeScript (blob : Option SessionState) (submitted : String) (now : Int)
    (fingerprint : String) : Option SessionState × List String :=
  match blob with
  | none => (blob, ["missing"])
  | some s =>
      match s.status with
      | .consumed =>
          let windowOpen := s.consumePayloadExpiresAtMs.any (now < ·)
          let sameFp := s.consumedClientFingerprintHex = some fingerprint
          if windowOpen ∧ sameFp then
            (blob, table [some "replay", s.dashboardPublicKey, s.ciphertext, s.nonce])
          else (blob, ["consumed"])
      | .expired => (blob, ["expired"])
      | .aborted => (blob, ["aborted", s.abortedReason.getD "unknown"])
      | .pending => (blob, ["not_approved"])
      | .verificationPending =>
          if diff (s.verificationCodeHmacHex.getD "") submitted ≠ 0 then
            let attempts := s.verificationAttempts + 1
            if maxVerifyAttempts ≤ attempts then
              (some { s with
                verificationAttempts := attempts
                status := .aborted
                abortedReason := some "rate_limit_exceeded" }, ["rate_limited"])
            else
              (some { s with verificationAttempts := attempts },
                ["invalid_code", toString attempts])
          else
            (some { s with
              status := .consumed
              consumedAtMs := some now
              consumePayloadExpiresAtMs := some (now + consumeReplayWindow)
              consumedClientFingerprintHex := some fingerprint },
              table [some "success", s.dashboardPublicKey, s.ciphertext, s.nonce])

/-- `abort.lua` -/
def abortScript (blob : Option SessionState) (owner : String) (reason : AbortReason) :
    Option SessionState × List String :=
  match blob with
  | none => (blob, ["missing"])
  | some s =>
      if s.clerkUserId ≠ some owner then (blob, ["not_owner"])
      else if s.status = .consumed then (blob, ["consumed"])
      else if s.status = .aborted then (blob, ["already_aborted"])
      else (some { s with status := .aborted, abortedReason := some reason.asStr }, ["ok"])

/-! ## Outcomes -/

structure VerifyPayload where
  dashboardPublicKey : String
  ciphertext : String
  nonce : String
deriving DecidableEq, Repr

inductive VerifyOutcome where
  | success (payload : VerifyPayload)
  | replay (payload : VerifyPayload)
  | missing
  | expired
  | aborted (reason : String)
  | consumed
  | notApproved
  | invalidCode (attempts : Nat)
  | rateLimited
deriving DecidableEq, Repr

inductive ApproveOutcome where
  | approved
  | missing
  | conflict (status : Option String)
deriving DecidableEq, Repr

inductive AbortOutcome where
  | aborted
  | alreadyAborted
  | missing
  | notOwner
  | consumed
deriving DecidableEq, Repr

def count (text : String) : Option Nat :=
  text.toNat?.bind fun n => if n < 256 then some n else none

/-- `none` is a reply this client does not know, here and below. -/
def parseOutcome : List String → Option VerifyOutcome
  | [] => none
  | "success" :: key :: ciphertext :: nonce :: _ => some (.success ⟨key, ciphertext, nonce⟩)
  | "replay" :: key :: ciphertext :: nonce :: _ => some (.replay ⟨key, ciphertext, nonce⟩)
  | "missing" :: _ => some .missing
  | "expired" :: _ => some .expired
  | "aborted" :: reason :: _ => some (.aborted reason)
  | "consumed" :: _ => some .consumed
  | "not_approved" :: _ => some .notApproved
  | "rate_limited" :: _ => some .rateLimited
  | "invalid_code" :: attempts :: _ => (count attempts).map .invalidCode
  | _ => none

def approveOutcome : List String → Option ApproveOutcome
  | "ok" :: _ => some .approved
  | "missing" :: _ => some .missing
  | "conflict" :: rest => some (.conflict rest.head?)
  | _ => none

def abortOutcome : List String → Option AbortOutcome
  | "ok" :: _ => some .aborted
  | "already_aborted" :: _ => some .alreadyAborted
  | "missing" :: _ => some .missing
  | "not_owner" :: _ => some .notOwner
  | "consumed" :: _ => some .consumed
  | _ => none

/-! ## Digests -/

theorem apart_nonneg (a b : UInt8) : 0 ≤ apart a b := mul_self_nonneg _

theorem apart_eq_zero {a b : UInt8} : apart a b = 0 ↔ a = b := by
  constructor
  · intro same
    have equal : ((a.toNat : Int) - b.toNat) = 0 := mul_self_eq_zero.mp same
    exact UInt8.toNat_inj.mp (by omega)
  · rintro rfl
    rw [apart, sub_self, mul_zero]

theorem zipWith_apart_nonneg (a b : List UInt8) : 0 ≤ (List.zipWith apart a b).sum := by
  induction a generalizing b with
  | nil => simp
  | cons first rest ih =>
      cases b with
      | nil => simp
      | cons other others =>
          rw [List.zipWith_cons_cons, List.sum_cons]
          exact Int.add_nonneg (apart_nonneg first other) (ih others)

theorem zipWith_apart_eq_zero {a b : List UInt8} (long : a.length = b.length) :
    (List.zipWith apart a b).sum = 0 ↔ a = b := by
  induction a generalizing b with
  | nil => simp [List.eq_nil_of_length_eq_zero long.symm]
  | cons first rest ih =>
      cases b with
      | nil => cases long
      | cons other others =>
          have tails := ih (Nat.succ.inj long)
          have here := apart_nonneg first other
          have there_ := zipWith_apart_nonneg rest others
          rw [List.zipWith_cons_cons, List.sum_cons, List.cons.injEq, ← apart_eq_zero, ← tails]
          omega

theorem bytes_inj {a b : String} (same : bytes a = bytes b) : a = b := by
  rw [← String.toByteArray_inj]
  exact ByteArray.ext (Array.toList_inj.mp same)

theorem diff_eq_zero {stored submitted : String} : diff stored submitted = 0 ↔
    stored = submitted := by
  constructor
  · intro none_
    simp only [diff] at none_
    have pairs := zipWith_apart_nonneg (bytes stored) (bytes submitted)
    have sizes : 0 ≤ (((bytes stored).length : Int) - (bytes submitted).length)
        * (((bytes stored).length : Int) - (bytes submitted).length) := mul_self_nonneg _
    have long : (((bytes stored).length : Int) - (bytes submitted).length) = 0 :=
      mul_self_eq_zero.mp (by omega)
    exact bytes_inj ((zipWith_apart_eq_zero (by omega)).mp (by omega))
  · rintro rfl
    simp only [diff, sub_self, mul_zero, add_zero]
    exact (zipWith_apart_eq_zero rfl).mpr rfl

end Agentsfleet.Session
