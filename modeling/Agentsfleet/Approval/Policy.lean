import Agentsfleet.Core.JsonTree
import Agentsfleet.Library.Text
import Mathlib.Data.List.DropRight

/-!
# What a fleet's policy says of one action

The rules a fleet's author wrote, walked once in authored order, and the two halves of the
card a person is asked on.  A rule whose condition the event cannot answer fires: policy
lets an action through only where every rule that names it is contradicted.
-/

set_option autoImplicit false

namespace Agentsfleet.Approval

open Agentsfleet.Core
open Agentsfleet.Library

/-! ## Conditions -/

/-- The text before and after the first `operator`. -/
def splitOnce (operator : List Char) : List Char → Option (List Char × List Char)
  | [] => if operator.isEmpty then some ([], []) else none
  | c :: rest =>
      match (c :: rest).dropPrefix? operator with
      | some after => some ([], after)
      | none => (splitOnce operator rest).map fun halves => (c :: halves.1, halves.2)

def trimMatches (text : List Char) : List Char :=
  (text.dropWhile (· == ' ')).rdropWhile (· == ' ')

def opEqual : List Char := " == ".toList

def opNotEqual : List Char := " != ".toList

def quote : Char := '\''

/-- The right-hand side without the quotes around it; as it is when it has none. -/
def unquoted (rhs : List Char) : List Char :=
  match rhs with
  | [] => rhs
  | first :: inner =>
      if first = quote ∧ inner.getLast? = some quote then inner.dropLast else rhs

structure Condition where
  field : String
  value : String
  negate : Bool
deriving DecidableEq

namespace Condition

/-- Both halves of a condition written with `operator`. -/
def split (condition : String) (operator : List Char) : Option (String × String) :=
  (splitOnce operator condition.toList).map fun halves =>
    (String.ofList (trimMatches halves.1), String.ofList (unquoted (trimMatches halves.2)))

/-- `==` is looked for first, so an expression with both reads as an equality. -/
def parse (condition : String) : Option Condition :=
  match split condition opEqual with
  | some (field, value) => some ⟨field, value, false⟩
  | none =>
      match split condition opNotEqual with
      | some (field, value) => some ⟨field, value, true⟩
      | none => none

def isSatisfiedBy (condition : Condition) (actual : String) : Bool :=
  (actual == condition.value) != condition.negate

end Condition

/-! ## Rules -/

inductive Behavior where
  | approve
  | autoKill
deriving DecidableEq

structure GateRule where
  tool : String
  action : String
  condition : Option String
  behavior : Behavior
  gateKind : String
  blastRadius : String

/-- A repetition that stops the fleet.  Neither count is ever zero. -/
structure AnomalyRule where
  repeats : Nat
  windowS : Nat
  repeats_pos : 0 < repeats
  window_pos : 0 < windowS

structure GatePolicy where
  rules : List GateRule
  anomalyRules : List AnomalyRule
  timeoutMs : Nat

def wildcard : String := "*"

def matchesAction (rule : GateRule) (tool action : String) : Bool :=
  (rule.tool == wildcard || rule.tool == tool) &&
    (rule.action == wildcard || rule.action == action)

def textField (context : Option Json) (field : String) : Option String :=
  match context with
  | some (.object members) => (Members.get? members field).bind Json.asStr
  | _ => none

def fires (rule : GateRule) (context : Option Json) : Bool :=
  match rule.condition with
  | none => true
  | some text =>
      match Condition.parse text with
      | none => true
      | some condition =>
          match textField context condition.field with
          | none => true
          | some actual => condition.isSatisfiedBy actual

def matchRule (policy : GatePolicy) (tool action : String) (context : Option Json) :
    Option GateRule :=
  policy.rules.find? fun rule => matchesAction rule tool action && fires rule context

inductive Decision where
  | autoApprove
  | requiresApproval
  | autoKill
deriving DecidableEq

def Decision.of : Option GateRule → Decision
  | none => .autoApprove
  | some rule =>
      match rule.behavior with
      | .approve => .requiresApproval
      | .autoKill => .autoKill

def Contradicts (context : Option Json) (rule : GateRule) : Prop :=
  ∃ text condition actual, rule.condition = some text ∧ Condition.parse text = some condition ∧
    textField context condition.field = some actual ∧ condition.isSatisfiedBy actual = false

theorem fires_eq_false {rule : GateRule} {context : Option Json} :
    fires rule context = false ↔ Contradicts context rule := by
  unfold fires Contradicts
  constructor
  · intro quiet
    split at quiet
    · contradiction
    · rename_i text written
      split at quiet
      · contradiction
      · rename_i condition parsed
        split at quiet
        · contradiction
        · rename_i actual held
          exact ⟨text, condition, actual, written, parsed, held, quiet⟩
  · rintro ⟨text, condition, actual, written, parsed, held, fails⟩
    simp only [written, parsed, held, fails]

theorem autoApprove_iff {policy : GatePolicy} {tool action : String} {context : Option Json} :
    Decision.of (matchRule policy tool action context) = .autoApprove ↔
      ∀ rule ∈ policy.rules, matchesAction rule tool action = true → Contradicts context rule := by
  have through : Decision.of (matchRule policy tool action context) = .autoApprove ↔
      matchRule policy tool action context = none := by
    cases matchRule policy tool action context with
    | none => simp [Decision.of]
    | some rule => cases behaves : rule.behavior <;> simp [Decision.of, behaves]
  rw [through, matchRule, List.find?_eq_none]
  constructor
  · intro quiet rule member names
    have unmet := quiet rule member
    rw [names, Bool.true_and, Bool.not_eq_true] at unmet
    exact fires_eq_false.mp unmet
  · intro contradicted rule member both
    rw [Bool.and_eq_true] at both
    have quiet := fires_eq_false.mpr (contradicted rule member both.1)
    rw [quiet] at both
    exact absurd both.2 Bool.false_ne_true

/-! ## The card -/

/-- The half of a card the daemon and the workspace assert. -/
structure Stated where
  tool : String
  action : String
  summary : String
  kind : String
  radius : String
  timeoutMs : Nat
deriving DecidableEq

namespace Stated

def of (tool action summary : String) (timeoutMs : Nat) : Stated :=
  ⟨tool, action, summary, "", "", timeoutMs⟩

def under (stated : Stated) (rule : GateRule) : Stated :=
  { stated with kind := rule.gateKind, radius := rule.blastRadius }

end Stated

def maxProposedActionBytes : Nat := 512

def maxEvidenceBytes : Nat := 1024

/-- A character that lets prose imitate the card's other half: a control character, or one
that reorders what is rendered. -/
def isForgeable (c : Char) : Bool :=
  c.val < 32 || (127 ≤ c.val && c.val < 160) || (0x202A ≤ c.val && c.val ≤ 0x202E) ||
    (0x2066 ≤ c.val && c.val ≤ 0x2069)

def cardSafe (prose : List Char) : List Char := prose.map fun c => if isForgeable c then ' ' else c

def noEvidence : Json := .object []

theorem not_forgeable_cardSafe {prose : List Char} {c : Char} (member : c ∈ cardSafe prose) :
    isForgeable c = false := by
  obtain ⟨written, -, rfl⟩ := List.mem_map.mp member
  by_cases forged : isForgeable written = true
  · rw [if_pos forged]
    decide
  · rw [if_neg forged]
    exact Bool.not_eq_true _ ▸ forged

theorem bytes_cardSafe_le (prose : List Char) : Text.bytes (cardSafe prose) ≤ Text.bytes prose := by
  induction prose with
  | nil => exact Nat.le_refl _
  | cons c rest ih =>
      have shorter : (if isForgeable c then ' ' else c).utf8Size ≤ c.utf8Size := by
        split
        · exact Char.utf8Size_pos c
        · exact Nat.le_refl _
      simp only [cardSafe, List.map_cons, Text.bytes] at ih ⊢
      omega

/-- What the fleet's model says it intends to do, bounded and safe for a card. -/
structure Claim where
  proposedAction : String
  evidence : Json
  short : proposedAction.utf8ByteSize ≤ maxProposedActionBytes
  safe : ∀ c ∈ proposedAction.toList, isForgeable c = false
  small : evidence.encodedLen ≤ maxEvidenceBytes

namespace Claim

/-- The prose of the event's body: its stated intent, else its message. -/
def prose (context : Option Json) : String :=
  match context with
  | some (.object members) =>
      (((Members.get? members "proposed_action").or (Members.get? members "message")).bind
        Json.asStr).getD ""
  | _ => ""

/-- The evidence of the event's body; oversized evidence is dropped. -/
def offered (context : Option Json) : Json :=
  match context with
  | some (.object members) =>
      match Members.get? members "evidence" with
      | some value => if value.encodedLen ≤ maxEvidenceBytes then value else noEvidence
      | none => noEvidence
  | _ => noEvidence

theorem offered_small (context : Option Json) :
    (offered context).encodedLen ≤ maxEvidenceBytes := by
  have none_small : noEvidence.encodedLen ≤ maxEvidenceBytes := by decide
  unfold offered
  split
  · split
    · split
      · assumption
      · exact none_small
    · exact none_small
  · exact none_small

def shown (context : Option Json) : String :=
  String.ofList (cardSafe (Text.floor maxProposedActionBytes (prose context).toList))

theorem shown_short (context : Option Json) :
    (shown context).utf8ByteSize ≤ maxProposedActionBytes := by
  rw [shown, Text.utf8ByteSize_ofList]
  exact (bytes_cardSafe_le _).trans (Text.bytes_floor_le _ _)

theorem shown_safe (context : Option Json) :
    ∀ c ∈ (shown context).toList, isForgeable c = false := by
  intro c member
  rw [shown, String.toList_ofList] at member
  exact not_forgeable_cardSafe member

/-- The model's half of the card, read out of the event's body. -/
def of (context : Option Json) : Claim :=
  ⟨shown context, offered context, shown_short context, shown_safe context, offered_small context⟩

end Claim

/-! ## Which of the two reads decides -/

/-- What the lookup of the gate an event already holds found. -/
inductive RefState where
  | found
  | absent
  | unreadable
deriving DecidableEq

inductive Route where
  | evaluateRecorded
  | pass
  | kill
  | requestNew
  | wait
deriving DecidableEq

def route : RefState → Option Decision → Route
  | .found, _ => .evaluateRecorded
  | _, none => .pass
  | _, some .autoApprove => .pass
  | _, some .autoKill => .kill
  | .unreadable, some .requiresApproval => .wait
  | .absent, some .requiresApproval => .requestNew

/-! ## Answers -/

inductive GateStatus where
  | pending
  | approved
  | denied
  | timedOut
  | autoKilled
deriving DecidableEq

inductive Answer where
  | approved
  | denied
deriving DecidableEq

def Answer.parse (stored : String) : Option Answer :=
  if stored = "approve" then some .approved else if stored = "deny" then some .denied else none

def answer : GateStatus → Option Answer
  | .pending => none
  | .approved => some .approved
  | .denied | .timedOut | .autoKilled => some .denied

inductive Evaluation where
  | approved
  | denied
  | pending
  | expired
deriving DecidableEq

def evaluate : Option Answer → Bool → Evaluation
  | some .approved, _ => .approved
  | some .denied, _ => .denied
  | none, true => .expired
  | none, false => .pending

inductive Waiting where
  | parked
  | pending
  | unreadable
deriving DecidableEq

inductive Refused where
  | denied
  | expired
deriving DecidableEq

inductive Trigger where
  | anomaly
  | policy
deriving DecidableEq

inductive Verdict where
  | pass
  | await (waiting : Waiting)
  | refuse (refused : Refused)
  | killed (trigger : Trigger)
  | unavailable
deriving DecidableEq

def Verdict.ofEvaluation : Evaluation → Verdict
  | .approved => .pass
  | .denied => .refuse .denied
  | .expired => .refuse .expired
  | .pending => .await .pending

end Agentsfleet.Approval
