import Agentsfleet.Library.Run
import Agentsfleet.Library.Table
import Mathlib.Data.Prod.Lex
import Mathlib.Data.String.Basic

/-!
# Owed answers and the producer

A report commits the answer it owes as a row, then appends it to the queue and
receipts the row; the producer's two scans re-append what the queue never
confirmed or lost.  The statements come first, then everyone who runs them: the
reports in flight, the producers' passes and the lanes, each a step at a time,
with what the environment decides (a write or an append that fails, or goes
through and is not answered, a crash, the clock) in the event.
-/

set_option autoImplicit false

namespace Agentsfleet.Outbound

open Agentsfleet.Library

/-! ## Rows -/

/-- The connectors whose posters deliver answers. -/
inductive Provider where
  | slack
  | github
  | zoho
  | jira
  | linear
deriving DecidableEq

def Provider.all : List Provider := [.slack, .github, .zoho, .jira, .linear]

def Provider.id : Provider → String
  | .slack => "slack"
  | .github => "github"
  | .zoho => "zoho"
  | .jira => "jira"
  | .linear => "linear"

def Provider.parse (segment : String) : Option Provider :=
  Provider.all.find? fun provider => provider.id = segment

inductive AbandonReason where
  | refused
  | cyclesExhausted
  | unaddressable
deriving DecidableEq

def AbandonReason.asStr : AbandonReason → String
  | .refused => "refused"
  | .cyclesExhausted => "cycles_exhausted"
  | .unaddressable => "unaddressable"

abbrev AnswerKey := String × String

structure Delivery where
  fleetId : String
  workspaceId : String
  provider : Provider
  destination : String
  eventId : String
  answer : String
deriving DecidableEq

def Delivery.key (delivery : Delivery) : AnswerKey := (delivery.fleetId, delivery.eventId)

/-- A row of `fleet.obligations`; instants are milliseconds. -/
structure Obligation where
  id : String
  sequence : Nat
  fleetId : String
  workspaceId : String
  provider : String
  destination : String
  eventId : String
  answer : String
  receipt : Option String
  deliveredAt : Option Nat
  attemptCount : Nat
  abandonedAt : Option Nat
  abandonReason : Option String
  createdAt : Nat
  updatedAt : Nat
deriving DecidableEq

def Obligation.key (row : Obligation) : AnswerKey := (row.fleetId, row.eventId)

structure Owed where
  id : String
  fleetId : String
  workspaceId : String
  provider : String
  destination : String
  eventId : String
  answer : String
deriving DecidableEq

def Owed.key (owed : Owed) : AnswerKey := (owed.fleetId, owed.eventId)

def Obligation.owed (row : Obligation) : Owed :=
  ⟨row.id, row.fleetId, row.workspaceId, row.provider, row.destination, row.eventId, row.answer⟩

/-- `None` for a row whose stored connector id no connector answers to. -/
def Owed.addressed (owed : Owed) : Option Delivery :=
  (Provider.parse owed.provider).map fun provider =>
    ⟨owed.fleetId, owed.workspaceId, provider, owed.destination, owed.eventId, owed.answer⟩

/-! ## Statements -/

def minAge : Nat := 30 * 1000
def lostAfter : Nat := 300 * 1000
def batchLimit : Nat := 32

/-- `owe_delivery.sql`, under an empty answer's guard: whether a row was written. -/
def owe (now sequence : Nat) (id : String) (delivery : Delivery) (rows : List Obligation) :
    Bool × List Obligation :=
  if delivery.answer.isEmpty then (false, rows)
  else
    Table.insertNew Obligation.key
      { id := id
        sequence := sequence
        fleetId := delivery.fleetId
        workspaceId := delivery.workspaceId
        provider := delivery.provider.id
        destination := delivery.destination
        eventId := delivery.eventId
        answer := delivery.answer
        receipt := none
        deliveredAt := none
        attemptCount := 0
        abandonedAt := none
        abandonReason := none
        createdAt := now
        updatedAt := now } rows

/-- `receipt_delivery.sql`. -/
def receiptDelivery (now : Nat) (id entry : String) : List Obligation → List Obligation :=
  Table.update (fun row => decide (row.id = id) && row.receipt.isNone)
    fun row => { row with receipt := some entry, updatedAt := now }

/-- `reappend_receipt.sql`. -/
def reappendReceipt (now : Nat) (id entry : String) : List Obligation → List Obligation :=
  Table.update (fun row => decide (row.id = id))
    fun row => { row with receipt := some entry, updatedAt := now }

/-- `count_attempt.sql`. -/
def countAttempt (now : Nat) (key : AnswerKey) : List Obligation → List Obligation :=
  Table.update (fun row => decide (row.key = key) && row.deliveredAt.isNone)
    fun row => { row with attemptCount := row.attemptCount + 1, updatedAt := now }

/-- `stamp_delivered.sql`. -/
def stampDelivered (now : Nat) (key : AnswerKey) : List Obligation → List Obligation :=
  Table.update (fun row => decide (row.key = key) && row.deliveredAt.isNone)
    fun row => { row with deliveredAt := some now, updatedAt := now }

/-- `abandon.sql`. -/
def abandon (now : Nat) (key : AnswerKey) (reason : AbandonReason) :
    List Obligation → List Obligation :=
  Table.update
    (fun row => decide (row.key = key) && row.deliveredAt.isNone && row.abandonedAt.isNone)
    fun row =>
      { row with
        abandonedAt := some now
        abandonReason := some reason.asStr
        updatedAt := now }

/-- The row test of `select_unreceipted.sql`. -/
def isUnreceipted (now : Nat) (row : Obligation) : Bool :=
  row.receipt.isNone && row.abandonedAt.isNone && decide (row.createdAt + minAge < now)

/-- The row test of `select_undelivered.sql`. -/
def isUndelivered (now : Nat) (row : Obligation) : Bool :=
  row.receipt.isSome && row.deliveredAt.isNone && row.abandonedAt.isNone &&
    decide (row.updatedAt + lostAfter < now)

/-- `select_unreceipted.sql`. -/
def unreceipted (now : Nat) (rows : List Obligation) : List Obligation :=
  Table.select (isUnreceipted now) (fun row => toLex (row.createdAt, row.sequence)) batchLimit rows

/-- `select_undelivered.sql`. -/
def undelivered (now : Nat) (rows : List Obligation) : List Obligation :=
  Table.select (isUndelivered now)
    (fun row => toLex (row.fleetId, toLex (row.createdAt, row.sequence))) batchLimit rows

/-! ## Who runs them -/

inductive Scan where
  | unreceipted
  | undelivered
deriving DecidableEq

/-- A report after its commit: it appends what it owed, then receipts the row. -/
structure Report where
  obligation : String
  delivery : Delivery
  entry : Option String
deriving DecidableEq

/-- A producer's pass: the scan it walks, the rows ahead, and the append whose
receipt it is about to write. -/
structure Pass where
  scan : Scan
  rows : List Owed
  entry : Option (String × String)
deriving DecidableEq

/-- The ledger, the queue, the jobs the lanes hold, and everyone under way.
`appended` is every answer ever put on the queue, the latest first. -/
structure System where
  rows : List Obligation
  sequence : Nat
  queue : List (String × Delivery)
  lanes : List Delivery
  reports : List Report
  passes : List Pass
  appended : List AnswerKey
deriving DecidableEq

def System.start : System := ⟨[], 0, [], [], [], [], []⟩

/-- How one statement or append ended: done; done, but answered as a failure;
failed; or cut off by a crash.  `entry` is the id the queue gives an append. -/
inductive Turn where
  | done (now : Nat) (entry : String)
  | lost (now : Nat) (entry : String)
  | failed
  | crashed
deriving DecidableEq

namespace System

/-- `OutboundQueue::enqueue`, once it has gone through. -/
def enqueue (s : System) (entry : String) (delivery : Delivery) : System :=
  { s with
    queue := s.queue ++ [(entry, delivery)]
    appended := delivery.key :: s.appended }

def setReport (s : System) (slot : Nat) (report : Report) : System :=
  { s with reports := s.reports.set slot report }

def endReport (s : System) (slot : Nat) : System := { s with reports := s.reports.eraseIdx slot }

def setPass (s : System) (slot : Nat) (pass : Pass) : System :=
  { s with passes := s.passes.set slot pass }

def endPass (s : System) (slot : Nat) : System := { s with passes := s.passes.eraseIdx slot }

def oweDelivery (s : System) (now : Nat) (id : String) (delivery : Delivery) : System :=
  match owe now s.sequence id delivery s.rows with
  | (true, rows) =>
      { s with
        rows := rows
        sequence := s.sequence + 1
        reports := s.reports ++ [⟨id, delivery, none⟩] }
  | (false, rows) => { s with rows := rows, sequence := s.sequence + 1 }

/-- The next step of `Leases::queue_delivery`. -/
def stepReport (s : System) (slot : Nat) (turn : Turn) : System :=
  match s.reports[slot]? with
  | none => s
  | some report =>
      match report.entry, turn with
      | none, .done _ entry =>
          (s.enqueue entry report.delivery).setReport slot { report with entry := some entry }
      | none, .lost _ entry => (s.enqueue entry report.delivery).endReport slot
      | some entry, .done now _ | some entry, .lost now _ =>
          { s with rows := receiptDelivery now report.obligation entry s.rows }.endReport slot
      | _, .failed | _, .crashed => s.endReport slot

/-- The receipt a pass writes after an append, whether or not the write goes through. -/
def recordReappended (s : System) (slot : Nat) (pass : Pass) (id entry : String) (turn : Turn) :
    System :=
  match turn with
  | .done now _ | .lost now _ =>
      { s with rows := reappendReceipt now id entry s.rows }.setPass slot
        { pass with entry := none }
  | .failed | .crashed => s.setPass slot { pass with entry := none }

def nextScan (s : System) (slot : Nat) (scan : Scan) (turn : Turn) : System :=
  match scan, turn with
  | .undelivered, _ => s.endPass slot
  | .unreceipted, .done now _ =>
      s.setPass slot ⟨.undelivered, (Outbound.undelivered now s.rows).map Obligation.owed, none⟩
  | .unreceipted, _ => s.setPass slot ⟨.undelivered, [], none⟩

/-- One row of `Producer::requeue`: an append, or the abandonment of a row no
connector answers to; a refusing queue ends the scan. -/
def requeue (s : System) (slot : Nat) (scan : Scan) (owed : Owed) (rest : List Owed)
    (turn : Turn) : System :=
  match owed.addressed with
  | none =>
      match turn with
      | .done now _ | .lost now _ =>
          { s with rows := abandon now owed.key .unaddressable s.rows }.setPass slot
            ⟨scan, rest, none⟩
      | .failed | .crashed => s.setPass slot ⟨scan, rest, none⟩
  | some delivery =>
      match turn with
      | .done _ entry =>
          (s.enqueue entry delivery).setPass slot ⟨scan, rest, some (owed.id, entry)⟩
      | .lost _ entry => (s.enqueue entry delivery).setPass slot ⟨scan, [], none⟩
      | .failed | .crashed => s.setPass slot ⟨scan, [], none⟩

/-- The next step of `Producer::pass`: a receipt due is written first. -/
def stepPass (s : System) (slot : Nat) (turn : Turn) : System :=
  match s.passes[slot]? with
  | none => s
  | some pass =>
      if turn = .crashed then s.endPass slot
      else
        match pass.entry, pass.rows with
        | some (id, entry), _ => s.recordReappended slot pass id entry turn
        | none, [] => s.nextScan slot pass.scan turn
        | none, owed :: rest => s.requeue slot pass.scan owed rest turn

end System

inductive Event where
  | owe (now : Nat) (id : String) (delivery : Delivery)
  | report (slot : Nat) (turn : Turn)
  | passStarts (turn : Turn)
  | pass (slot : Nat) (turn : Turn)
  | laneTakes (entry : String)
  | laneCounts (slot now : Nat)
  | laneStamps (slot now : Nat)
  | laneAbandons (slot now : Nat) (reason : AbandonReason)
  | laneEnds (slot : Nat)
  | queueLoses (entries : List String)
deriving DecidableEq

def System.step (s : System) : Event → System
  | .owe now id delivery => s.oweDelivery now id delivery
  | .report slot turn => s.stepReport slot turn
  | .passStarts (.done now _) =>
      { s with
        passes := s.passes ++ [⟨.unreceipted, (unreceipted now s.rows).map Obligation.owed, none⟩] }
  | .passStarts _ => { s with passes := s.passes ++ [⟨.unreceipted, [], none⟩] }
  | .pass slot turn => s.stepPass slot turn
  | .laneTakes entry =>
      match s.queue.find? fun held => held.1 = entry with
      | none => s
      | some (_, delivery) => { s with lanes := s.lanes ++ [delivery] }
  | .laneCounts slot now =>
      match s.lanes[slot]? with
      | none => s
      | some job => { s with rows := countAttempt now job.key s.rows }
  | .laneStamps slot now =>
      match s.lanes[slot]? with
      | none => s
      | some job => { s with rows := stampDelivered now job.key s.rows }
  | .laneAbandons slot now reason =>
      match s.lanes[slot]? with
      | none => s
      | some job => { s with rows := abandon now job.key reason s.rows }
  | .laneEnds slot => { s with lanes := s.lanes.eraseIdx slot }
  | .queueLoses entries =>
      { s with queue := s.queue.filter fun held => !entries.contains held.1 }

/-! ## What stays true of an answer -/

/-- No scan can offer the row again: it was abandoned, or delivered with its
receipt recorded. -/
def Obligation.Settled (row : Obligation) : Prop :=
  row.abandonedAt.isSome = true ∨ row.receipt.isSome = true ∧ row.deliveredAt.isSome = true

structure SettledKey (key : AnswerKey) (rows : List Obligation) : Prop where
  held : key ∈ rows.map Obligation.key
  settled : ∀ row ∈ rows, row.key = key → row.Settled

def Report.underWay (key : AnswerKey) (report : Report) : Nat :=
  if report.entry = none ∧ report.delivery.key = key then 1 else 0

def Pass.underWay (key : AnswerKey) (pass : Pass) : Nat := (pass.rows.map Owed.key).count key

/-- How many appends of an answer are under way: by the report that owed it, and
by every pass whose scan read it. -/
def System.underWay (key : AnswerKey) (s : System) : Nat :=
  Table.weight (Report.underWay key) s.reports + Table.weight (Pass.underWay key) s.passes

def System.timesAppended (key : AnswerKey) (s : System) : Nat := s.appended.count key

section Rows

variable {key : AnswerKey} {rows : List Obligation} (now : Nat)

theorem settledKey_update {here : Obligation → Bool} {change : Obligation → Obligation}
    (same : ∀ row, (change row).key = row.key)
    (kept : ∀ row, row.Settled → (change row).Settled) (settled : SettledKey key rows) :
    SettledKey key (Table.update here change rows) where
  held := by rw [Table.column_update Obligation.key _ _ same]; exact settled.held
  settled := by
    refine Table.forall_update (fun row : Obligation => row.key = key → row.Settled) ?_
      settled.settled
    intro row before named
    exact kept row (before (by rw [← same row]; exact named))

theorem settledKey_receiptDelivery (id entry : String) (settled : SettledKey key rows) :
    SettledKey key (receiptDelivery now id entry rows) := by
  refine settledKey_update (fun _ => rfl) ?_ settled
  rintro row (abandoned | ⟨_, delivered⟩)
  · exact .inl abandoned
  · exact .inr ⟨rfl, delivered⟩

theorem settledKey_reappendReceipt (id entry : String) (settled : SettledKey key rows) :
    SettledKey key (reappendReceipt now id entry rows) := by
  refine settledKey_update (fun _ => rfl) ?_ settled
  rintro row (abandoned | ⟨_, delivered⟩)
  · exact .inl abandoned
  · exact .inr ⟨rfl, delivered⟩

theorem settledKey_countAttempt (other : AnswerKey) (settled : SettledKey key rows) :
    SettledKey key (countAttempt now other rows) :=
  settledKey_update (fun _ => rfl) (fun _ before => before) settled

theorem settledKey_stampDelivered (other : AnswerKey) (settled : SettledKey key rows) :
    SettledKey key (stampDelivered now other rows) := by
  refine settledKey_update (fun _ => rfl) ?_ settled
  rintro row (abandoned | ⟨receipted, _⟩)
  · exact .inl abandoned
  · exact .inr ⟨receipted, rfl⟩

theorem settledKey_abandon (other : AnswerKey) (reason : AbandonReason)
    (settled : SettledKey key rows) : SettledKey key (abandon now other reason rows) :=
  settledKey_update (fun _ => rfl) (fun _ _ => .inl rfl) settled

theorem settledKey_unscanned {matching : Obligation → Bool}
    (skips : ∀ row, row.Settled → matching row = false) {Order : Type} [LinearOrder Order]
    (order : Obligation → Order) (settled : SettledKey key rows) :
    key ∉ ((Table.select matching order batchLimit rows).map Obligation.owed).map Owed.key := by
  intro scanned
  rw [List.map_map, List.mem_map] at scanned
  obtain ⟨row, member, named⟩ := scanned
  obtain ⟨held, matched⟩ := Table.mem_of_mem_select member
  rw [skips row (settled.settled row held named)] at matched
  contradiction

theorem isUnreceipted_settled (row : Obligation) (settled : row.Settled) :
    isUnreceipted now row = false := by
  rcases settled with abandoned | ⟨receipted, _⟩
  · obtain ⟨instant, stamped⟩ := Option.isSome_iff_exists.mp abandoned
    simp [isUnreceipted, stamped]
  · obtain ⟨entry, stamped⟩ := Option.isSome_iff_exists.mp receipted
    simp [isUnreceipted, stamped]

theorem isUndelivered_settled (row : Obligation) (settled : row.Settled) :
    isUndelivered now row = false := by
  rcases settled with abandoned | ⟨_, delivered⟩
  · obtain ⟨instant, stamped⟩ := Option.isSome_iff_exists.mp abandoned
    simp [isUndelivered, stamped]
  · obtain ⟨instant, stamped⟩ := Option.isSome_iff_exists.mp delivered
    simp [isUndelivered, stamped]

end Rows

/-! ## One step -/

structure Winds (key : AnswerKey) (s next : System) : Prop where
  settled : SettledKey key next.rows
  winding : next.timesAppended key + next.underWay key ≤ s.timesAppended key + s.underWay key

section Steps

variable {key : AnswerKey} {s : System}

theorem winds_rows {rows : List Obligation} (settled : SettledKey key rows) :
    Winds key s { s with rows := rows } :=
  ⟨settled, Nat.le_refl _⟩

theorem winds_endReport {rows : List Obligation} (settled : SettledKey key rows) {slot : Nat}
    {report : Report} (found : s.reports[slot]? = some report) :
    Winds key s ({ s with rows := rows }.endReport slot) := by
  refine ⟨settled, ?_⟩
  have weighed := Table.weight_eraseIdx (Report.underWay key) found
  simp only [System.timesAppended, System.underWay, System.endReport]
  omega

theorem winds_setPass {rows : List Obligation} (settled : SettledKey key rows) {slot : Nat}
    {pass next : Pass} (found : s.passes[slot]? = some pass)
    (fewer : next.underWay key ≤ pass.underWay key) :
    Winds key s ({ s with rows := rows }.setPass slot next) := by
  refine ⟨settled, ?_⟩
  have weighed := Table.weight_set (Pass.underWay key) found next
  simp only [System.timesAppended, System.underWay, System.setPass]
  omega

theorem winds_endPass (settled : SettledKey key s.rows) {slot : Nat} {pass : Pass}
    (found : s.passes[slot]? = some pass) : Winds key s (s.endPass slot) := by
  refine ⟨settled, ?_⟩
  have weighed := Table.weight_eraseIdx (Pass.underWay key) found
  simp only [System.timesAppended, System.underWay, System.endPass]
  omega

theorem timesAppended_enqueue (key : AnswerKey) (s : System) (entry : String)
    (delivery : Delivery) :
    (s.enqueue entry delivery).timesAppended key =
      s.timesAppended key + if delivery.key = key then 1 else 0 := by
  simp [System.timesAppended, System.enqueue, List.count_cons]

theorem winds_reportAppends (settled : SettledKey key s.rows) {slot : Nat} {report : Report}
    (found : s.reports[slot]? = some report) (due : report.entry = none) (entry : String) :
    Winds key s ((s.enqueue entry report.delivery).setReport slot
        { report with entry := some entry }) ∧
      Winds key s ((s.enqueue entry report.delivery).endReport slot) := by
  have before : report.underWay key = if report.delivery.key = key then 1 else 0 := by
    simp [Report.underWay, due]
  have appended := timesAppended_enqueue key s entry report.delivery
  constructor
  · refine ⟨settled, ?_⟩
    have weighed := Table.weight_set (Report.underWay key) found
      { report with entry := some entry }
    have after : Report.underWay key { report with entry := some entry } = 0 := by
      simp [Report.underWay]
    simp only [System.timesAppended, System.underWay, System.setReport, System.enqueue]
      at appended ⊢
    omega
  · refine ⟨settled, ?_⟩
    have weighed := Table.weight_eraseIdx (Report.underWay key) found
    simp only [System.timesAppended, System.underWay, System.endReport, System.enqueue]
      at appended ⊢
    omega

theorem winds_passAppends (settled : SettledKey key s.rows) {slot : Nat} {pass next : Pass}
    {owed : Owed} {rest : List Owed} (found : s.passes[slot]? = some pass)
    (ahead : pass.rows = owed :: rest) (past : next.underWay key ≤ (rest.map Owed.key).count key)
    {delivery : Delivery} (same : delivery.key = owed.key) (entry : String) :
    Winds key s ((s.enqueue entry delivery).setPass slot next) := by
  refine ⟨settled, ?_⟩
  have weighed := Table.weight_set (Pass.underWay key) found next
  have before : pass.underWay key =
      (rest.map Owed.key).count key + if owed.key = key then 1 else 0 := by
    simp [Pass.underWay, ahead, List.count_cons]
  have appended := timesAppended_enqueue key s entry delivery
  rw [same] at appended
  simp only [System.timesAppended, System.underWay, System.setPass, System.enqueue]
    at appended ⊢
  omega

theorem Owed.addressed_key {owed : Owed} {delivery : Delivery}
    (addressed : owed.addressed = some delivery) : delivery.key = owed.key := by
  obtain ⟨provider, _, rfl⟩ := Option.map_eq_some_iff.mp addressed
  rfl

theorem winds_oweDelivery (settled : SettledKey key s.rows) (now : Nat) (id : String)
    (delivery : Delivery) : Winds key s (s.oweDelivery now id delivery) := by
  unfold System.oweDelivery owe
  by_cases empty : delivery.answer.isEmpty = true
  · rw [if_pos empty]
    exact ⟨settled, Nat.le_refl _⟩
  · rw [if_neg empty]
    unfold Table.insertNew
    by_cases conflict : delivery.key ∈ s.rows.map Obligation.key
    · rw [if_pos (by exact conflict)]
      exact ⟨settled, Nat.le_refl _⟩
    · rw [if_neg (by exact conflict)]
      have other : delivery.key ≠ key := fun same => conflict (same ▸ settled.held)
      constructor
      · constructor
        · rw [List.map_append]
          exact List.mem_append_left _ settled.held
        · intro row member named
          rcases List.mem_append.mp member with old | new
          · exact settled.settled row old named
          · rw [List.mem_singleton.mp new] at named
            exact absurd named other
      · have fresh : Report.underWay key ⟨id, delivery, none⟩ = 0 := by
          simp [Report.underWay, other]
        simp only [System.timesAppended, System.underWay, Table.weight_append,
          Table.weight_singleton, fresh]
        omega

theorem winds_stepReport (settled : SettledKey key s.rows) (slot : Nat) (turn : Turn) :
    Winds key s (s.stepReport slot turn) := by
  unfold System.stepReport
  cases found : s.reports[slot]? with
  | none => exact ⟨settled, Nat.le_refl _⟩
  | some report =>
      simp only
      cases due : report.entry with
      | none =>
          cases turn with
          | done now entry => exact (winds_reportAppends settled found due entry).1
          | lost now entry => exact (winds_reportAppends settled found due entry).2
          | failed => exact winds_endReport settled found
          | crashed => exact winds_endReport settled found
      | some receipt =>
          have receipted := fun now =>
            settledKey_receiptDelivery now report.obligation receipt settled
          cases turn with
          | done now entry => exact winds_endReport (receipted now) found
          | lost now entry => exact winds_endReport (receipted now) found
          | failed => exact winds_endReport settled found
          | crashed => exact winds_endReport settled found

theorem winds_recordReappended (settled : SettledKey key s.rows) {slot : Nat} {pass : Pass}
    (found : s.passes[slot]? = some pass) (id entry : String) (turn : Turn) :
    Winds key s (s.recordReappended slot pass id entry turn) := by
  have receipted := fun now => settledKey_reappendReceipt now id entry settled
  cases turn with
  | done now _ => exact winds_setPass (receipted now) found (Nat.le_refl _)
  | lost now _ => exact winds_setPass (receipted now) found (Nat.le_refl _)
  | failed => exact winds_setPass settled found (Nat.le_refl _)
  | crashed => exact winds_setPass settled found (Nat.le_refl _)

theorem winds_nextScan (settled : SettledKey key s.rows) {slot : Nat} {pass : Pass}
    (found : s.passes[slot]? = some pass) (turn : Turn) :
    Winds key s (s.nextScan slot pass.scan turn) := by
  have empty : Winds key s (s.setPass slot ⟨.undelivered, [], none⟩) :=
    winds_setPass settled found (Nat.zero_le _)
  unfold System.nextScan
  cases pass.scan with
  | undelivered => exact winds_endPass settled found
  | unreceipted =>
      cases turn with
      | done now _ =>
          refine winds_setPass settled found ?_
          have unscanned : key ∉
              ((undelivered now s.rows).map Obligation.owed).map Owed.key :=
            settledKey_unscanned (fun row => isUndelivered_settled _ row) _ settled
          simp only [Pass.underWay, List.count_eq_zero.mpr unscanned]
          exact Nat.zero_le _
      | lost now _ => exact empty
      | failed => exact empty
      | crashed => exact empty

theorem winds_requeue (settled : SettledKey key s.rows) {slot : Nat} {pass : Pass} {owed : Owed}
    {rest : List Owed} (found : s.passes[slot]? = some pass) (ahead : pass.rows = owed :: rest)
    (turn : Turn) : Winds key s (s.requeue slot pass.scan owed rest turn) := by
  have past : Pass.underWay key ⟨pass.scan, rest, none⟩ ≤ pass.underWay key := by
    simp only [Pass.underWay, ahead, List.map_cons, List.count_cons]
    omega
  have given_up : Pass.underWay key ⟨pass.scan, [], none⟩ ≤ pass.underWay key := Nat.zero_le _
  unfold System.requeue
  cases addressed : owed.addressed with
  | none =>
      have abandoned := fun now =>
        settledKey_abandon now owed.key .unaddressable settled
      cases turn with
      | done now _ => exact winds_setPass (abandoned now) found past
      | lost now _ => exact winds_setPass (abandoned now) found past
      | failed => exact winds_setPass settled found past
      | crashed => exact winds_setPass settled found past
  | some delivery =>
      have same := Owed.addressed_key addressed
      cases turn with
      | done _ entry => exact winds_passAppends settled found ahead (Nat.le_refl _) same entry
      | lost _ entry => exact winds_passAppends settled found ahead (Nat.zero_le _) same entry
      | failed => exact winds_setPass settled found given_up
      | crashed => exact winds_setPass settled found given_up

theorem winds_stepPass (settled : SettledKey key s.rows) (slot : Nat) (turn : Turn) :
    Winds key s (s.stepPass slot turn) := by
  unfold System.stepPass
  cases found : s.passes[slot]? with
  | none => exact ⟨settled, Nat.le_refl _⟩
  | some pass =>
      simp only
      split
      · exact winds_endPass settled found
      · split
        · exact winds_recordReappended settled found _ _ turn
        · exact winds_nextScan settled found turn
        · rename_i ahead
          exact winds_requeue settled found ahead turn

theorem winds_passStarts (settled : SettledKey key s.rows) (turn : Turn) :
    Winds key s (s.step (.passStarts turn)) := by
  have empty : Pass.underWay key ⟨.unreceipted, [], none⟩ = 0 := rfl
  cases turn with
  | done now _ =>
      refine ⟨settled, ?_⟩
      have unscanned : key ∉ ((unreceipted now s.rows).map Obligation.owed).map Owed.key :=
        settledKey_unscanned (fun row => isUnreceipted_settled _ row) _ settled
      simp only [System.step, System.timesAppended, System.underWay, Table.weight_append,
        Table.weight_singleton, Pass.underWay, List.count_eq_zero.mpr unscanned]
      omega
  | lost now _ =>
      refine ⟨settled, ?_⟩
      simp only [System.step, System.timesAppended, System.underWay, Table.weight_append,
        Table.weight_singleton, empty]
      omega
  | failed =>
      refine ⟨settled, ?_⟩
      simp only [System.step, System.timesAppended, System.underWay, Table.weight_append,
        Table.weight_singleton, empty]
      omega
  | crashed =>
      refine ⟨settled, ?_⟩
      simp only [System.step, System.timesAppended, System.underWay, Table.weight_append,
        Table.weight_singleton, empty]
      omega

theorem winds_lane (settled : SettledKey key s.rows) (slot : Nat)
    (write : AnswerKey → List Obligation → List Obligation)
    (kept : ∀ other, SettledKey key (write other s.rows)) :
    Winds key s
      (match s.lanes[slot]? with
      | none => s
      | some job => { s with rows := write job.key s.rows }) := by
  cases s.lanes[slot]? with
  | none => exact ⟨settled, Nat.le_refl _⟩
  | some job => exact winds_rows (kept job.key)

theorem winds_step (settled : SettledKey key s.rows) (event : Event) :
    Winds key s (s.step event) := by
  cases event with
  | owe now id delivery => exact winds_oweDelivery settled now id delivery
  | report slot turn => exact winds_stepReport settled slot turn
  | passStarts turn => exact winds_passStarts settled turn
  | pass slot turn => exact winds_stepPass settled slot turn
  | laneTakes entry =>
      simp only [System.step]
      cases s.queue.find? fun held => held.1 = entry with
      | none => exact ⟨settled, Nat.le_refl _⟩
      | some held => exact ⟨settled, Nat.le_refl _⟩
  | laneCounts slot now =>
      exact winds_lane settled slot (countAttempt now) fun other =>
        settledKey_countAttempt now other settled
  | laneStamps slot now =>
      exact winds_lane settled slot (stampDelivered now) fun other =>
        settledKey_stampDelivered now other settled
  | laneAbandons slot now reason =>
      exact winds_lane settled slot (fun other => abandon now other reason) fun other =>
        settledKey_abandon now other reason settled
  | laneEnds slot => exact ⟨settled, Nat.le_refl _⟩
  | queueLoses entries => exact ⟨settled, Nat.le_refl _⟩

/-- From any state on, a settled answer stays settled, and what is still put on the
queue for it was already under way. -/
theorem winds_run (settled : SettledKey key s.rows) (events : List Event) :
    Winds key s (Run.final System.step s events) := by
  induction events generalizing s with
  | nil => exact ⟨settled, Nat.le_refl _⟩
  | cons event rest ih =>
      have first := winds_step settled event
      have others := ih first.settled
      exact ⟨others.settled, Nat.le_trans others.winding first.winding⟩

end Steps

/-! ## One row an answer -/

def UniqueKeys (rows : List Obligation) : Prop := (rows.map Obligation.key).Nodup

theorem uniqueKeys_update {here : Obligation → Bool} {change : Obligation → Obligation}
    {rows : List Obligation} (same : ∀ row, (change row).key = row.key)
    (unique : UniqueKeys rows) : UniqueKeys (Table.update here change rows) := by
  unfold UniqueKeys
  rw [Table.column_update Obligation.key _ _ same]
  exact unique

theorem uniqueKeys_owe (now sequence : Nat) (id : String) (delivery : Delivery)
    {rows : List Obligation} (unique : UniqueKeys rows) :
    UniqueKeys (owe now sequence id delivery rows).2 := by
  unfold owe
  by_cases empty : delivery.answer.isEmpty = true
  · rw [if_pos empty]
    exact unique
  · rw [if_neg empty]
    exact Table.insertNew_nodup Obligation.key _ unique

theorem uniqueKeys_step (s : System) (event : Event) (unique : UniqueKeys s.rows) :
    UniqueKeys (s.step event).rows := by
  have receipted : ∀ now id entry, UniqueKeys (receiptDelivery now id entry s.rows) :=
    fun _ _ _ => uniqueKeys_update (fun _ => rfl) unique
  have reappended : ∀ now id entry, UniqueKeys (reappendReceipt now id entry s.rows) :=
    fun _ _ _ => uniqueKeys_update (fun _ => rfl) unique
  have abandoned : ∀ now key reason, UniqueKeys (abandon now key reason s.rows) :=
    fun _ _ _ => uniqueKeys_update (fun _ => rfl) unique
  cases event with
  | owe now id delivery =>
      have owed := uniqueKeys_owe now s.sequence id delivery unique
      simp only [System.step, System.oweDelivery]
      cases outcome : Outbound.owe now s.sequence id delivery s.rows with
      | mk written rows =>
          rw [outcome] at owed
          cases written with
          | true => exact owed
          | false => exact owed
  | report slot turn =>
      simp only [System.step, System.stepReport]
      split
      · exact unique
      · split <;> first | exact unique | exact receipted _ _ _
  | passStarts turn => cases turn <;> exact unique
  | pass slot turn =>
      simp only [System.step, System.stepPass]
      split
      · exact unique
      · split
        · exact unique
        · split
          · cases turn <;> first | exact unique | exact reappended _ _ _
          · unfold System.nextScan
            split <;> exact unique
          · unfold System.requeue
            split
            · cases turn <;> first | exact unique | exact abandoned _ _ _
            · cases turn <;> exact unique
  | laneTakes entry =>
      simp only [System.step]
      split <;> exact unique
  | laneCounts slot now =>
      simp only [System.step]
      split
      · exact unique
      · exact uniqueKeys_update (fun _ => rfl) unique
  | laneStamps slot now =>
      simp only [System.step]
      split
      · exact unique
      · exact uniqueKeys_update (fun _ => rfl) unique
  | laneAbandons slot now reason =>
      simp only [System.step]
      split
      · exact unique
      · exact abandoned _ _ _
  | laneEnds slot => exact unique
  | queueLoses entries => exact unique

theorem uniqueKeys_run (events : List Event) :
    UniqueKeys (Run.final System.step System.start events).rows :=
  Run.invariant_of_step (fun s : System => UniqueKeys s.rows) uniqueKeys_step
    (show UniqueKeys [] from List.nodup_nil) events _ (Run.final_mem_states _ _ _)

theorem UniqueKeys.settledKey {rows : List Obligation} (unique : UniqueKeys rows)
    {row : Obligation} (held : row ∈ rows) (settled : row.Settled) : SettledKey row.key rows where
  held := List.mem_map_of_mem held
  settled := by
    intro other member same
    rw [List.inj_on_of_nodup_map unique member held same]
    exact settled

/-! ## What the scans offer -/

/-- What the two scans offer in one state, at one instant: no row in both; only
rows not abandoned, the undelivered scan only rows delivered to nobody; and every
row old enough that is neither delivered nor abandoned, unless rows before it in
the scan's order fill the batch. -/
structure ScansOffer (now : Nat) (rows : List Obligation) : Prop where
  apart : ∀ row ∈ unreceipted now rows, row ∉ undelivered now rows
  unreceipted_sound : ∀ row ∈ unreceipted now rows, row ∈ rows ∧ row.receipt = none ∧
    row.abandonedAt = none ∧ row.createdAt + minAge < now
  undelivered_sound : ∀ row ∈ undelivered now rows, row ∈ rows ∧ row.receipt ≠ none ∧
    row.deliveredAt = none ∧ row.abandonedAt = none ∧ row.updatedAt + lostAfter < now
  unreceipted_complete : ∀ row ∈ rows, row.deliveredAt = none → row.abandonedAt = none →
    row.receipt = none → row.createdAt + minAge < now →
      row ∈ unreceipted now rows ∨ (unreceipted now rows).length = batchLimit ∧
        ∀ first ∈ unreceipted now rows,
          toLex (first.createdAt, first.sequence) ≤ toLex (row.createdAt, row.sequence)
  undelivered_complete : ∀ row ∈ rows, row.deliveredAt = none → row.abandonedAt = none →
    row.receipt ≠ none → row.updatedAt + lostAfter < now →
      row ∈ undelivered now rows ∨ (undelivered now rows).length = batchLimit ∧
        ∀ first ∈ undelivered now rows,
          toLex (first.fleetId, toLex (first.createdAt, first.sequence)) ≤
            toLex (row.fleetId, toLex (row.createdAt, row.sequence))

theorem isUnreceipted_iff {now : Nat} {row : Obligation} :
    isUnreceipted now row = true ↔
      row.receipt = none ∧ row.abandonedAt = none ∧ row.createdAt + minAge < now := by
  simp [isUnreceipted, and_assoc]

theorem isUndelivered_iff {now : Nat} {row : Obligation} :
    isUndelivered now row = true ↔ row.receipt ≠ none ∧ row.deliveredAt = none ∧
      row.abandonedAt = none ∧ row.updatedAt + lostAfter < now := by
  simp [isUndelivered, and_assoc, Option.isSome_iff_ne_none]

theorem scansOffer (now : Nat) (rows : List Obligation) : ScansOffer now rows where
  apart := by
    intro row first second
    have missing := (isUnreceipted_iff.mp (Table.mem_of_mem_select first).2).1
    exact (isUndelivered_iff.mp (Table.mem_of_mem_select second).2).1 missing
  unreceipted_sound := by
    intro row member
    obtain ⟨held, matched⟩ := Table.mem_of_mem_select member
    exact ⟨held, isUnreceipted_iff.mp matched⟩
  undelivered_sound := by
    intro row member
    obtain ⟨held, matched⟩ := Table.mem_of_mem_select member
    exact ⟨held, isUndelivered_iff.mp matched⟩
  unreceipted_complete := by
    intro row held _ kept missing old
    exact Table.mem_select_or_full held (isUnreceipted_iff.mpr ⟨missing, kept, old⟩)
  undelivered_complete := by
    intro row held waiting kept receipted old
    exact Table.mem_select_or_full held (isUndelivered_iff.mpr ⟨receipted, waiting, kept, old⟩)

/-- What holds of a ledger however the deployment goes on: what the scans offer,
and that an answer abandoned, or delivered with its receipt recorded, is never
offered again and put on the queue only by appends already under way. -/
structure System.Accounts (s : System) : Prop where
  scans : ∀ now, ScansOffer now s.rows
  settled : ∀ row ∈ s.rows, row.Settled → ∀ events,
    (∀ now, ∀ other ∈ unreceipted now (Run.final System.step s events).rows,
      other.key ≠ row.key) ∧
    (∀ now, ∀ other ∈ undelivered now (Run.final System.step s events).rows,
      other.key ≠ row.key) ∧
    (Run.final System.step s events).timesAppended row.key ≤
      s.timesAppended row.key + s.underWay row.key

/-- Every state the deployment can reach accounts for what it owes. -/
theorem producer_accounts (events : List Event) :
    (Run.final System.step System.start events).Accounts where
  scans := fun now => scansOffer now _
  settled := by
    intro row held settled later
    have wound := winds_run ((uniqueKeys_run events).settledKey held settled) later
    refine ⟨?_, ?_, ?_⟩
    · intro now other member same
      obtain ⟨stored, matched⟩ := Table.mem_of_mem_select member
      rw [isUnreceipted_settled _ other (wound.settled.settled other stored same)] at matched
      contradiction
    · intro now other member same
      obtain ⟨stored, matched⟩ := Table.mem_of_mem_select member
      rw [isUndelivered_settled _ other (wound.settled.settled other stored same)] at matched
      contradiction
    · exact Nat.le_trans (Nat.le_add_right _ _) wound.winding

/-! ## Where an answer is put on the queue again -/

def answer : Delivery := ⟨"fleet", "workspace", .slack, "channel", "event", "done"⟩

def receiptFails : List Event :=
  [.owe 0 "row" answer, .report 0 (.done 0 "1-0"), .laneTakes "1-0", .laneStamps 0 1,
    .report 0 .failed]

/-- Owed so long before its report appended it that a pass had appended it too. -/
def reportLags : List Event :=
  [.owe 0 "row" answer, .passStarts (.done 30001 ""), .pass 0 (.done 30001 "1-0"),
    .pass 0 (.done 30001 ""), .laneTakes "1-0", .laneStamps 0 30002]

/-- A row already delivered is offered and appended once more when its receipt
write failed, and a report's own append may land after the stamp. -/
theorem delivered_answers_appended_again :
    ((unreceipted 30001 (Run.final System.step System.start receiptFails).rows).any
        (fun row => row.deliveredAt = some 1) = true ∧
      (Run.final System.step System.start receiptFails).timesAppended answer.key = 1 ∧
      (Run.final System.step System.start (receiptFails ++
        [.passStarts (.done 30001 ""), .pass 0 (.done 30001 "2-0")])).timesAppended
          answer.key = 2) ∧
    ((Run.final System.step System.start reportLags).rows.all
        (fun row => row.receipt.isSome && row.deliveredAt == some 30002) = true ∧
      (Run.final System.step System.start reportLags).timesAppended answer.key = 1 ∧
      (Run.final System.step System.start (reportLags ++
        [.report 0 (.done 30003 "2-0")])).timesAppended answer.key = 2) := by
  decide +kernel

end Agentsfleet.Outbound
