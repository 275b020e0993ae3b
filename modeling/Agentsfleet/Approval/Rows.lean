import Agentsfleet.Approval.Policy
import Agentsfleet.Library.Growth
import Mathlib.Data.List.MinMax
import Mathlib.Data.Prod.Lex
import Mathlib.Data.String.Basic

/-!
# Gates, grants and the statements that write them

The rows of `fleet.approval_gates`, `connector.integration_grants` and `fleet.admissions` as
the operator's plane and the lease path write them, one function for each statement.  A gate
is pending while nothing resolved it; every statement that resolves one picks pending rows
only, and a trigger of the schema refuses any other change.
-/

set_option autoImplicit false

namespace Agentsfleet.Approval

open Agentsfleet.Core
open Agentsfleet.Library

/-! ## Rows -/

/-- A row of `fleet.approval_gates`. -/
structure Gate where
  id : String
  fleet : String
  workspace : String
  event : Option String
  activeGrant : Option String
  action : String
  toolName : String
  actionName : String
  gateType : String
  proposedAction : String
  evidence : Json
  blastRadius : String
  expiresAt : Int
  status : GateStatus
  resolvedAt : Option Int
  resolvedBy : Option String
  detail : String
  createdAt : Int
  updatedAt : Int

inductive GrantStatus where
  | pending
  | approved
  | revoked
deriving DecidableEq

/-- A row of `connector.integration_grants`. -/
structure Grant where
  id : String
  fleet : String
  service : String
  status : GrantStatus
  requestedReason : String
  approvedAt : Option Int
  revokedAt : Option Int
  createdAt : Int
  updatedAt : Int
deriving DecidableEq

/-- A row of `fleet.admissions`.  A continuation is keyed by the action of its gate. -/
structure Delivery where
  id : String
  fleet : String
  workspace : String
  actor : String
  continues : Option String
  settled : Bool
  parkedAt : Option Int
deriving DecidableEq

/-- A row of `fleet.events` that a continuation opens. -/
structure Opened where
  fleet : String
  event : String
  actor : String
  resumes : Option String
deriving DecidableEq

structure Tables where
  gates : List Gate
  grants : List Grant
  deliveries : List Delivery
  events : List Opened

def Gate.isPending (row : Gate) : Bool := row.resolvedAt.isNone

/-- `ORDER BY key DESC LIMIT 1`, of the rows `picks` matches. -/
def latest {Row Key : Type} [LinearOrder Key] (picks : Row → Bool) (key : Row → Key)
    (rows : List Row) : Option Row :=
  (rows.filter picks).argmax key

/-- The newest of the rows `picks` matches: `ORDER BY created_at DESC, id DESC LIMIT 1`. -/
def newest (picks : Gate → Bool) (rows : List Gate) : Option Gate :=
  latest picks (fun row => toLex (row.createdAt, row.id)) rows

theorem newest_mem {picks : Gate → Bool} {rows : List Gate} {row : Gate}
    (found : newest picks rows = some row) : row ∈ rows ∧ picks row = true :=
  List.mem_filter.mp (List.argmax_mem (Option.mem_def.mpr found))

theorem newest_eq_none {picks : Gate → Bool} {rows : List Gate} :
    newest picks rows = none ↔ ∀ row ∈ rows, picks row = false := by
  rw [newest, latest, List.argmax_eq_none, List.filter_eq_nil_iff]
  simp only [Bool.not_eq_true]

/-! ## Parking an event -/

/-- `SELECT_EVENT_GATE`: the newest gate of an event. -/
def Tables.eventGate (t : Tables) (fleet event : String) : Option Gate :=
  newest (fun row => row.fleet == fleet && row.event == some event) t.gates

/-- `SELECT_GATE_STATUS`: the newest gate of an action. -/
def Tables.standing (t : Tables) (action : String) : Option Gate :=
  newest (fun row => row.action == action) t.gates

/-- `INSERT_GATE`.  The row opens pending, whatever is bound to it. -/
def Tables.insertGate (t : Tables) (row : Gate) : Tables :=
  { t with gates := t.gates ++ [row] }

/-! ## Answering a gate -/

inductive Outcome where
  | approved
  | denied
  | timedOut
deriving DecidableEq

def Outcome.status : Outcome → GateStatus
  | .approved => .approved
  | .denied => .denied
  | .timedOut => .timedOut

def Outcome.continuesTheRun : Outcome → Bool
  | .approved => true
  | _ => false

/-- What `RESOLVE_GATE` is bound to; an empty scope is every fleet. -/
structure Answering where
  action : String
  outcome : Outcome
  resolver : String
  detail : String
  scope : String
deriving DecidableEq

def kindIntegrationGrant : String := "integration_grant"

/-- `evidence->>'service'`. -/
def Gate.service (row : Gate) : Option String := textField (some row.evidence) "service"

def inScope (scope fleet : String) : Bool := scope == "" || fleet == scope

def Answering.picks (a : Answering) (row : Gate) : Bool :=
  row.action == a.action && row.isPending && inScope a.scope row.fleet

def Gate.close (status : GateStatus) (resolver detail : String) (now : Int) (row : Gate) : Gate :=
  { row with
    status, detail, resolvedBy := some resolver, resolvedAt := some now, updatedAt := now,
    activeGrant := none }

def Answering.close (a : Answering) (now : Int) (row : Gate) : Gate :=
  row.close a.outcome.status a.resolver a.detail now

def Gate.movesGrant (row : Gate) (grant : Grant) : Bool :=
  grant.fleet == row.fleet && some grant.service == row.service &&
    row.gateType == kindIntegrationGrant && row.event.isNone && grant.status != .revoked

def Grant.answered (outcome : Outcome) (now : Int) (grant : Grant) : Grant :=
  match outcome with
  | .approved =>
      { grant with
        status := .approved, approvedAt := some now, revokedAt := none, updatedAt := now }
  | _ =>
      { grant with
        status := .revoked, approvedAt := none, revokedAt := some now, updatedAt := now }

def Delivery.unpark (row : Delivery) : Delivery := { row with parkedAt := none }

/-- The unsettled deliveries of the fleets of `closed` leave their park. -/
def unpark (closed : List Gate) (rows : List Delivery) : List Delivery :=
  Table.update (fun row => !row.settled && closed.any fun gate => gate.fleet == row.fleet)
    Delivery.unpark rows

/-- `RESOLVE_GATE`, with the first row it returns. -/
def Tables.resolveGate (t : Tables) (a : Answering) (now : Int) : Tables × Option Gate :=
  let won := (t.gates.filter a.picks).map (a.close now)
  ({ t with
      gates := Table.update a.picks (a.close now) t.gates
      grants := Table.update (fun grant => won.any fun row => row.movesGrant grant)
        (Grant.answered a.outcome now) t.grants
      deliveries := unpark won t.deliveries },
    won.head?)

/-- `SELECT_GATE_BY_ACTION`. -/
def Tables.gateByAction (t : Tables) (action scope : String) : Option Gate :=
  newest (fun row => row.action == action && inScope scope row.fleet) t.gates

def sweeper : String := "system:approval_gate_sweeper"

def sweptDetail : String := "the approval window closed with no answer"

def Gate.lapsed (now : Int) (row : Gate) : Bool := decide (row.expiresAt ≤ now)

/-- `EXPIRE_GATES`. -/
def Tables.expireGates (t : Tables) (now : Int) : Tables :=
  let swept := t.gates.filter fun row => row.isPending && row.lapsed now
  { t with
    gates := Table.update (fun row => row.isPending && row.lapsed now)
      (Gate.close .timedOut sweeper sweptDetail now) t.gates
    deliveries := unpark swept t.deliveries }

/-! ## Grants -/

inductive Origin where
  | install
  | park
deriving DecidableEq

def Origin.reason : Origin → String
  | .install => "Declared by the fleet's setup at install"
  | .park => "Wanted by a delivery that could not run"

structure Wanted where
  service : String
  credential : String
  origin : Origin
deriving DecidableEq

/-- The one key the answer's statement joins on. -/
def Wanted.evidence (wanted : Wanted) : Json := .object [("service", .string wanted.service)]

inductive Requested where
  | raised
  | pending
  | approved
  | denied
deriving DecidableEq

def grantDecisionWindowMs : Int := 30 * 24 * 60 * 60 * 1000

def Tables.grantOf (t : Tables) (fleet service : String) : Option Grant :=
  t.grants.find? fun grant => grant.fleet == fleet && grant.service == service

/-- `ENSURE_GRANT`. -/
def Tables.ensureGrant (t : Tables) (id fleet : String) (wanted : Wanted) (now : Int) : Tables :=
  if (t.grantOf fleet wanted.service).isSome then t
  else { t with grants := t.grants ++
    [⟨id, fleet, wanted.service, .pending, wanted.origin.reason, none, none, now, now⟩] }

def Wanted.card (wanted : Wanted) (id action fleet workspace : String) (grant : Grant)
    (now : Int) : Gate where
  id
  fleet
  workspace
  event := none
  activeGrant := some grant.id
  action
  toolName := wanted.service
  actionName := wanted.credential
  gateType := kindIntegrationGrant
  proposedAction := "mint short-lived credentials for " ++ wanted.service
  evidence := wanted.evidence
  blastRadius := "every credential this fleet mints for " ++ wanted.service ++
    ", until a person revokes the grant"
  expiresAt := now + grantDecisionWindowMs
  status := .pending
  resolvedAt := none
  resolvedBy := none
  detail := ""
  createdAt := now
  updatedAt := now

/-- `REQUEST_GRANT`: how many cards it raised, and where the grant stands. -/
def Tables.requestGrant (t : Tables) (id action fleet workspace : String) (wanted : Wanted)
    (now : Int) : Tables × Option (Nat × GrantStatus) :=
  match t.grantOf fleet wanted.service with
  | none => (t, none)
  | some grant =>
      if grant.status = .pending ∧ (t.gates.any fun row => row.activeGrant == some grant.id) = false
      then (t.insertGate (wanted.card id action fleet workspace grant now), some (1, grant.status))
      else (t, some (0, grant.status))

def settle (found : GrantStatus) (raised : Bool) : Requested :=
  match found with
  | .pending => if raised then .raised else .pending
  | .approved => .approved
  | .revoked => .denied

def Tables.request (t : Tables) (grantId id action fleet workspace : String) (wanted : Wanted)
    (now : Int) : Tables × Option Requested :=
  let asked := (t.ensureGrant grantId fleet wanted now).requestGrant id action fleet workspace
    wanted now
  (asked.1, asked.2.map fun answer => settle answer.2 (decide (0 < answer.1)))

/-- `REVOKE_GRANT`, for a fleet its workspace holds. -/
def Tables.revokeGrant (t : Tables) (fleet grant : String) (now : Int) : Tables :=
  { t with
    grants := Table.update
      (fun row => row.id == grant && row.fleet == fleet && row.status != .revoked)
      (fun row => { row with status := .revoked, revokedAt := some now, updatedAt := now })
      t.grants }

/-- `CANCEL_SETUP_CARDS`. -/
def Tables.cancelSetup (t : Tables) (fleet : String) (now : Int) : Tables :=
  { t with
    gates := Table.update
      (fun row => row.fleet == fleet && row.isPending && row.gateType == kindIntegrationGrant)
      (Gate.close .autoKilled "setup-cancellation" "Fleet setup was cancelled" now) t.gates }

/-- `hold_approved_on`: whether the fleet may mint against an integration. -/
def Tables.holdApproved (t : Tables) (fleet integration : String) : Bool :=
  t.grants.any fun grant =>
    grant.fleet == fleet && grant.service == integration && grant.status == .approved

/-! ## Parks -/

/-- `PARK_WAITING`: a delivery is parked while a question for it, or for its fleet, stands. -/
def Tables.parkWaiting (t : Tables) (fleet id : String) (now : Int) : Tables :=
  { t with
    deliveries := Table.update
      (fun row => row.fleet == fleet && row.id == id && !row.settled &&
        t.gates.any fun gate => gate.fleet == row.fleet && gate.isPending &&
          (gate.event.isNone || gate.event == some row.id))
      (fun row => { row with parkedAt := some now }) t.deliveries }

end Agentsfleet.Approval
