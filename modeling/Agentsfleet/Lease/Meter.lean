import Agentsfleet.Billing.Ledger
import Agentsfleet.Billing.Price
import Agentsfleet.Core.Clock
import Agentsfleet.Task.Effects

/-!
# Metering a lease

Three writers move one lease's runtime cursor: a renewal, the report that ends
the run, and the sweep over leases that ended unreported.  Each measures the
time since the cursor and logs it in the transaction that advances the cursor.
Instants are microseconds; a column keeps whole milliseconds.

A renewal and a report hold their host's row first, and every pass holds the
lease row, so the passes over one lease take effect one at a time.  What the
other writers do to the rows a pass reads is an event of its own.
-/

set_option autoImplicit false

namespace Agentsfleet.Lease

open Agentsfleet.Core
open Agentsfleet.Library
open Agentsfleet.Billing
open Agentsfleet.Task

/-! ## Time -/

def leaseTtl : Int := 30000000

def maxRuntime : Int := 43200000000

/-- `LEAST`, which skips what is null. -/
def least (first : Int) (others : List (Option Int)) : Int := (others.filterMap id).foldl min first

/-! ## Rows -/

inductive LeaseStatus where
  | active
  | reported
  | expired
deriving DecidableEq

structure TaskStamp where
  generation : Int
  stopGeneration : Int
  executionDeadlineAt : Int
  runtimeAccountedAt : Int
deriving DecidableEq

/-- A row of `runner.leases`. -/
structure LeaseRow where
  id : String
  runner : String
  tenant : String
  workspace : String
  fleet : String
  eventId : String
  fence : Int
  status : LeaseStatus
  createdAt : Int
  lastMeteredAt : Int
  expiresAt : Int
  task : Option TaskStamp
deriving DecidableEq

structure SlotRow where
  fence : Int
  expiresAt : Int
deriving DecidableEq

structure TaskRow where
  status : TaskState
  generation : Int
  stopGeneration : Int
  expiresAt : Int
  maxModelNanos : Int
  usedModelNanos : Int
  reservedModelNanos : Int
  maxRunningNanos : Int
  usedRunningNanos : Int
deriving DecidableEq

structure AdmissionRow where
  leaseFence : Option Int
  settled : Bool
deriving DecidableEq

/-- The rows beside the lease that a pass reads: the fleet's slot, the lease's
event, its bound task, its admission and its fleet's name. -/
structure World where
  slot : Option SlotRow
  event : Bool
  task : Option TaskRow
  admission : Option AdmissionRow
  fleetName : Option String
deriving DecidableEq

/-! ## The metering statement -/

/-- What a request reports; the wire refuses a number in the daemon's range. -/
structure RequestUsage where
  seq : Nat
  instant : Int
  inputTokens : UInt32
  cachedInputTokens : UInt32
  cacheWriteTokens : UInt32
  cacheWrite5mTokens : UInt32
  cacheWrite1hTokens : UInt32
  outputTokens : UInt32
  numbered : seq < daemonSeqBase
deriving DecidableEq

def RequestUsage.line (request : RequestUsage) : UsageLine where
  seq := request.seq
  instant := request.instant
  inputTokens := request.inputTokens
  cachedInputTokens := request.cachedInputTokens
  cacheWriteTokens := request.cacheWriteTokens
  cacheWrite5mTokens := request.cacheWrite5mTokens
  cacheWrite1hTokens := request.cacheWrite1hTokens
  outputTokens := request.outputTokens
  runtimeMs := 0

structure Pricing where
  book : PriceBook
  posture : Posture
  provider : String
  model : String

/-- One renewal's or report's pass; the clock is read under the row locks. -/
structure Call where
  runner : String
  requests : List RequestUsage
  pricing : Pricing
  checkedAt : Int
  now : Nat

/-- The run time one pass measured. -/
structure Slice where
  daemonLines : Nat
  checkedAt : Int
  startedAt : Int
  runtimeMs : Int
  eventId : String
  fleetName : Option String
deriving DecidableEq

def isRuntime (lease : String) (line : Line) : Bool :=
  decide (line.work = .fleetLease lease) && decide (daemonSeqBase ≤ line.rated.usage.seq) &&
    decide (line.rated.usage.seq < decisionSeqBase)

def runtimeLines (lease : String) (log : List Line) : List Line := log.filter (isRuntime lease)

/-- Where the measured time ends: never past the deadline the lease was granted. -/
def LeaseRow.meteredUntil (lease : LeaseRow) (checkedAt : Int) : Int :=
  max lease.lastMeteredAt (min checkedAt lease.expiresAt)

section Meter

variable (interval : Int → Int)

def TaskStamp.runningUntil (stamp : TaskStamp) (task : TaskRow) : Int :=
  stamp.runtimeAccountedAt + interval (task.maxRunningNanos - task.usedRunningNanos)

def LeaseRow.capped (lease : LeaseRow) (task : Option TaskRow) (checkedAt : Int) : Int :=
  least (checkedAt + leaseTtl)
    [some (lease.createdAt + maxRuntime), lease.task.map TaskStamp.executionDeadlineAt,
      task.map TaskRow.expiresAt,
      lease.task.bind fun stamp => task.map fun row => stamp.runningUntil interval row]

def LeaseRow.taskLive (lease : LeaseRow) (task : Option TaskRow) (checkedAt : Int) : Bool :=
  match lease.task with
  | none => true
  | some stamp =>
      match task with
      | none => false
      | some row =>
          row.status = .running && stamp.generation = row.generation &&
            stamp.stopGeneration = row.stopGeneration && decide (checkedAt < row.expiresAt) &&
              decide (row.usedModelNanos < row.maxModelNanos - row.reservedModelNanos) &&
                decide (checkedAt < stamp.executionDeadlineAt) &&
                  decide (checkedAt < stamp.runningUntil interval row)

/-- The fence: a settle needs that no claim superseded it, a renewal that it is
the live holder still, before every deadline. -/
def guarded (settles : Bool) (lease : LeaseRow) (slot : SlotRow) (world : World)
    (checkedAt : Int) : Bool :=
  (if settles then decide (slot.fence ≤ lease.fence)
    else decide (lease.fence = slot.fence) &&
      decide (checkedAt < min (checkedAt + leaseTtl) (lease.createdAt + maxRuntime)) &&
        decide (checkedAt < lease.expiresAt) && decide (checkedAt < slot.expiresAt) &&
          lease.taskLive interval world.task checkedAt) &&
    match world.admission with
    | none => false
    | some admission => decide (admission.leaseFence = some lease.fence) && !admission.settled

/-- `meter_lease.sql`: the slice it measured and the rows it left, or nothing. -/
def meterLease (settles : Bool) (call : Call) (lease : LeaseRow) (world : World)
    (log : List Line) : Option (Slice × LeaseRow × World) :=
  if lease.runner = call.runner ∧ lease.status = .active ∧ world.event = true then
    match world.slot with
    | none => none
    | some slot =>
        if guarded interval settles lease slot world call.checkedAt then
          let stop := lease.meteredUntil call.checkedAt
          let capped := stored (lease.capped interval world.task call.checkedAt)
          let slice : Slice :=
            { daemonLines := (runtimeLines lease.id log).length
              checkedAt := stop
              startedAt := lease.createdAt
              runtimeMs := milliseconds (stop - lease.lastMeteredAt)
              eventId := lease.eventId
              fleetName := world.fleetName }
          if settles then
            some (slice, { lease with status := .reported, lastMeteredAt := stored stop },
              { world with
                admission := world.admission.map fun row => { row with settled := true } })
          else
            some (slice, { lease with expiresAt := capped, lastMeteredAt := stored stop },
              { world with slot := some { slot with expiresAt := capped } })
        else none
  else none

/-- `bill_expired_slice.sql`: an unreported lease past its deadline. -/
def billExpiredSlice (now : Int) (lease : LeaseRow) (world : World) (log : List Line) :
    Option (Slice × LeaseRow) :=
  if lease.status ≠ .reported ∧ lease.expiresAt < now ∧ lease.lastMeteredAt < lease.expiresAt then
    some
      ({ daemonLines := (runtimeLines lease.id log).length
         checkedAt := lease.expiresAt
         startedAt := lease.createdAt
         runtimeMs := milliseconds (lease.expiresAt - lease.lastMeteredAt)
         eventId := lease.eventId
         fleetName := world.fleetName },
        { lease with lastMeteredAt := lease.expiresAt })
  else none

end Meter

/-! ## What a pass logs -/

inductive MeterError where
  | sequenceCorrupt
  | price (cause : PriceError)
  | ledger (cause : BillingError)
deriving DecidableEq

def count (value : Int) : UInt32 := UInt32.ofNat (min value.toNat u32Max)

def Slice.runtime (slice : Slice) : Except MeterError (List UsageLine) :=
  if count slice.runtimeMs = 0 then .ok []
  else if slice.daemonLines ≤ u32Max ∧ daemonSeqBase + slice.daemonLines ≤ daemonSeqMax then
    .ok [.runtime (daemonSeqBase + slice.daemonLines) slice.checkedAt (count slice.runtimeMs)]
  else .error .sequenceCorrupt

def rateAll (rate : UsageLine → Except PriceError RatedLine) :
    List UsageLine → Except MeterError (List RatedLine)
  | [] => .ok []
  | line :: rest =>
      match rate line with
      | .error cause => .error (.price cause)
      | .ok rated =>
          match rateAll rate rest with
          | .error refused => .error refused
          | .ok others => .ok (rated :: others)

def LeaseRow.bill (lease : LeaseRow) (slice : Slice) (pricing : Pricing)
    (lines : List RatedLine) : Settlement where
  work := .fleetLease lease.id
  payer := ⟨lease.tenant, lease.workspace⟩
  attribution := .fleet lease.fleet (slice.fleetName.getD lease.fleet) slice.eventId
  provider := pricing.provider
  model := pricing.model
  posture := pricing.posture
  lines := lines

/-- `Pricing::settlement`: the requests and the slice, priced. -/
def Pricing.settlement (pricing : Pricing) (lease : LeaseRow) (slice : Slice)
    (requests : List RequestUsage) : Except MeterError (Option Settlement) :=
  match slice.runtime with
  | .error refused => .error refused
  | .ok runtime =>
      if (requests.map RequestUsage.line ++ runtime).isEmpty then .ok none
      else
        match rateAll
            (Rater.rate ⟨pricing.book, pricing.posture, ⟨slice.startedAt, slice.checkedAt⟩⟩)
            (requests.map RequestUsage.line ++ runtime) with
        | .error refused => .error refused
        | .ok lines => .ok (some (lease.bill slice pricing lines))

def logMeasured (now : Nat) (settlement : Option Settlement) (log : List Line) :
    Except MeterError (List Line) :=
  match settlement with
  | none => .ok log
  | some settlement =>
      match logLines now settlement log with
      | .error cause => .error (.ledger cause)
      | .ok (_, log) => .ok log

def billSlice (pricing : Pricing) (now : Nat) (lease : LeaseRow) (slice : Slice)
    (requests : List RequestUsage) (log : List Line) : Except MeterError (List Line) :=
  match pricing.settlement lease slice requests with
  | .error refused => .error refused
  | .ok settlement => logMeasured now settlement log

/-- `original_requests`, logged: known requests stay the original lease's. -/
def originalRequests (call : Call) (lease : LeaseRow) (world : World) (log : List Line) :
    Except MeterError (List Line) :=
  if call.requests.isEmpty then .ok log
  else if lease.runner = call.runner ∧ world.event = true then
    billSlice call.pricing call.now lease
      { daemonLines := 0
        checkedAt := min call.checkedAt lease.expiresAt
        startedAt := lease.createdAt
        runtimeMs := 0
        eventId := lease.eventId
        fleetName := world.fleetName }
      call.requests log
  else .ok log

/-! ## Any order of passes -/

structure Billed where
  since : Int
  stop : Int
  deadline : Int
deriving DecidableEq

/-- The lease, the rows beside it, its usage log, and every stretch billed. -/
structure System where
  lease : LeaseRow
  world : World
  log : List Line
  billed : List Billed

inductive Event where
  /-- A renewal's transaction, and whether its host may renew. -/
  | renew (call : Call) (canRenew : Bool)
  | report (call : Call)
  /-- A renewal refused before extension still records what it carried. -/
  | recordKnown (call : Call)
  | sweep (now : Int) (stamp : Nat) (pricing : Pricing)
  /-- Every other writer of the rows beside the lease. -/
  | world (world : World)
  /-- A claim or a sweep over the runner ends the lease. -/
  | expire
  /-- A task is bound, which can only draw the deadline nearer. -/
  | bind (stamp : TaskStamp)

section Run

variable (interval : Int → Int)

/-- The lines logged leave the pass's rows; a pass that fails leaves nothing. -/
def System.logged (s : System) (answer : Except MeterError (List Line)) : System :=
  match answer with
  | .error _ => s
  | .ok log => { s with log := log }

/-- A slice's pass: its lines, its rows and its stretch commit together. -/
def System.measured (s : System) (lease : LeaseRow) (world : World)
    (answer : Except MeterError (List Line)) : System :=
  match answer with
  | .error _ => s
  | .ok log =>
      { lease := lease
        world := world
        log := log
        billed :=
          if s.lease.lastMeteredAt < lease.lastMeteredAt then
            ⟨s.lease.lastMeteredAt, lease.lastMeteredAt, s.lease.expiresAt⟩ :: s.billed
          else s.billed }

def System.step (s : System) : Event → System
  | .renew call canRenew =>
      match if canRenew then meterLease interval false call s.lease s.world s.log else none with
      | none => s.logged (originalRequests call s.lease s.world s.log)
      | some (slice, lease, world) =>
          s.measured lease world (billSlice call.pricing call.now s.lease slice call.requests s.log)
  | .report call =>
      match meterLease interval true call s.lease s.world s.log with
      | none =>
          if s.lease.runner = call.runner ∧ s.lease.status = .reported then s
          else s.logged (originalRequests call s.lease s.world s.log)
      | some (slice, lease, world) =>
          s.measured lease world (billSlice call.pricing call.now s.lease slice call.requests s.log)
  | .recordKnown call => s.logged (originalRequests call s.lease s.world s.log)
  | .sweep now stamp pricing =>
      match billExpiredSlice now s.lease s.world s.log with
      | none => s
      | some (slice, lease) =>
          s.measured lease s.world
            (billSlice { pricing with book := ⟨[]⟩ } stamp s.lease slice [] s.log)
  | .world world => { s with world := world }
  | .expire =>
      if s.lease.status = .active then { s with lease := { s.lease with status := .expired } }
      else s
  | .bind stamp =>
      { s with
        lease :=
          { s.lease with
            task := some stamp
            expiresAt := min s.lease.expiresAt (stored stamp.executionDeadlineAt) } }

end Run

def System.runtimeBilled (s : System) : Nat :=
  ((runtimeLines s.lease.id s.log).map fun line => line.rated.usage.runtimeMs.toNat).sum

/-! ## Rounding -/

theorem least_le_first (first : Int) (others : List (Option Int)) : least first others ≤ first := by
  unfold least
  generalize others.filterMap id = values
  induction values generalizing first with
  | nil => exact Int.le_refl first
  | cons value rest ih => exact Int.le_trans (ih (min first value)) (Int.min_le_left first value)

theorem count_toNat {value : Int} (nonneg : 0 ≤ value) (small : value ≤ 31000) :
    ((count value).toNat : Int) = value := by
  have within : min value.toNat u32Max = value.toNat := by
    apply Nat.min_eq_left
    unfold u32Max
    omega
  unfold count
  rw [within, UInt32.toNat_ofNat_of_lt' (by simp [UInt32.size]; omega)]
  exact Int.toNat_of_nonneg nonneg

/-! ## What a pass adds to the log -/

section Log

variable {rate : UsageLine → Except PriceError RatedLine} {lease : LeaseRow} {slice : Slice}
  {pricing : Pricing}
  {requests : List RequestUsage} {log after : List Line} {now : Nat}

theorem rateAll_append {first second : List UsageLine} {rated : List RatedLine}
    (priced : rateAll rate (first ++ second) = .ok rated) :
    ∃ left right, rated = left ++ right ∧ rateAll rate first = .ok left ∧
      rateAll rate second = .ok right := by
  induction first generalizing rated with
  | nil => exact ⟨[], rated, rfl, rfl, priced⟩
  | cons line rest ih =>
      simp only [List.cons_append, rateAll] at priced ⊢
      cases one : rate line with
      | error cause => simp [one] at priced
      | ok head =>
          cases others : rateAll rate (rest ++ second) with
          | error refused => simp [one, others] at priced
          | ok tail =>
              simp only [one, others, Except.ok.injEq] at priced
              subst priced
              obtain ⟨left, right, rfl, found, remaining⟩ := ih others
              exact ⟨head :: left, right, rfl, by simp [found], remaining⟩

theorem rateAll_singleton {line : UsageLine} {rated : List RatedLine}
    (priced : rateAll rate [line] = .ok rated) : ∃ one, rate line = .ok one ∧ rated = [one] := by
  cases one : rate line with
  | error cause => simp [rateAll, one] at priced
  | ok head =>
      simp only [rateAll, one, Except.ok.injEq] at priced
      exact ⟨head, rfl, priced.symm⟩

theorem rateAll_usage {lines : List UsageLine} {rated : List RatedLine}
    (keeps : ∀ line one, rate line = .ok one →
      one.usage.seq = line.seq ∧ one.usage.runtimeMs = line.runtimeMs)
    (priced : rateAll rate lines = .ok rated) :
    ∀ one ∈ rated, ∃ line ∈ lines, one.usage.seq = line.seq := by
  induction lines generalizing rated with
  | nil =>
      cases priced
      simp
  | cons line rest ih =>
      simp only [rateAll] at priced
      cases one : rate line with
      | error cause => simp [one] at priced
      | ok head =>
          cases others : rateAll rate rest with
          | error refused => simp [one, others] at priced
          | ok tail =>
              simp only [one, others, Except.ok.injEq] at priced
              subst priced
              intro other member
              rcases List.mem_cons.mp member with rfl | inside
              · exact ⟨line, List.mem_cons_self, (keeps line other one).1⟩
              · obtain ⟨source, held, same⟩ := ih others other inside
                exact ⟨source, List.mem_cons_of_mem _ held, same⟩

theorem daemonSeqMax_lt : daemonSeqMax < decisionSeqBase := by decide

/-- What a logged slice adds: known requests, and one line for its run time. -/
structure Logs (lease : LeaseRow) (slice : Slice) (requests : List RequestUsage)
    (log after : List Line) : Prop where
  unique : (after.map Line.key).Nodup
  kept : ∀ line ∈ log, line ∈ after
  added : ∀ line ∈ after, line ∈ log ∨
    count slice.runtimeMs ≠ 0 ∧ isRuntime lease.id line = true ∨
      ∃ request ∈ requests,
        line.work = .fleetLease lease.id ∧ line.rated.usage.seq = request.seq
  runtime : (runtimeLines lease.id after).map (fun line =>
      (line.rated.usage.seq, line.rated.usage.runtimeMs)) =
    (runtimeLines lease.id log).map (fun line =>
      (line.rated.usage.seq, line.rated.usage.runtimeMs)) ++
    if count slice.runtimeMs = 0 then []
    else [(daemonSeqBase + slice.daemonLines, count slice.runtimeMs)]

end Log

theorem runtimeLines_requests (settlement : Settlement) (id : String) (now : Nat)
    (log : List Line) {rated : List RatedLine}
    (requests : ∀ one ∈ rated, one.usage.seq < daemonSeqBase) :
    runtimeLines id (insertLines settlement now rated log).2 = runtimeLines id log := by
  apply filter_insertLines
  intro one member
  have low := requests one member
  have not_daemon : ¬daemonSeqBase ≤ one.usage.seq := Nat.not_le.mpr low
  simp [isRuntime, Settlement.row, not_daemon]

/-- A runtime line under a number the log does not have is written behind the
lease's others. -/
theorem runtimeLines_own {settlement : Settlement} {id : String} (now : Nat) {own : RatedLine}
    (log : List Line) (work : settlement.work = .fleetLease id)
    (daemon : daemonSeqBase ≤ own.usage.seq) (bounded : own.usage.seq < decisionSeqBase)
    (fresh : ∀ line ∈ runtimeLines id log, line.rated.usage.seq ≠ own.usage.seq) :
    runtimeLines id (insertLines settlement now [own] log).2 =
      runtimeLines id log ++ [settlement.row now own] := by
  have runtime : isRuntime id (settlement.row now own) = true := by
    simp [isRuntime, Settlement.row, work, daemon, bounded]
  have apart : (settlement.row now own).key ∉ log.map Line.key := by
    intro held
    obtain ⟨line, member, same⟩ := List.mem_map.mp held
    simp only [Line.key, Settlement.row, Prod.mk.injEq, work] at same
    refine fresh line (List.mem_filter.mpr ⟨member, ?_⟩) same.2
    simp [isRuntime, same.1, same.2, daemon, bounded]
  simp only [insertLines, Table.insertNew, if_neg apart]
  rw [runtimeLines, List.filter_append, List.filter_singleton, runtime]
  rfl

theorem runtime_ok {slice : Slice} {runtime : List UsageLine}
    (measured : slice.runtime = .ok runtime) :
    count slice.runtimeMs = 0 ∧ runtime = [] ∨
      count slice.runtimeMs ≠ 0 ∧ daemonSeqBase + slice.daemonLines < decisionSeqBase ∧
        runtime = [.runtime (daemonSeqBase + slice.daemonLines) slice.checkedAt
          (count slice.runtimeMs)] := by
  unfold Slice.runtime at measured
  by_cases still : count slice.runtimeMs = 0
  · rw [if_pos still] at measured
    cases measured
    exact .inl ⟨still, rfl⟩
  · rw [if_neg still] at measured
    by_cases bounded : slice.daemonLines ≤ u32Max ∧
        daemonSeqBase + slice.daemonLines ≤ daemonSeqMax
    · rw [if_pos bounded] at measured
      cases measured
      exact .inr ⟨still, Nat.lt_of_le_of_lt bounded.2 daemonSeqMax_lt, rfl⟩
    · rw [if_neg bounded] at measured
      exact nomatch measured

theorem settlement_ok {lease : LeaseRow} {slice : Slice} {pricing : Pricing}
    {requests : List RequestUsage} {answer : Option Settlement}
    (priced : pricing.settlement lease slice requests = .ok answer) :
    answer = none ∧ count slice.runtimeMs = 0 ∨
      ∃ known own, answer = some (lease.bill slice pricing (known ++ own)) ∧
        (∀ one ∈ known, ∃ request ∈ requests, one.usage.seq = request.seq) ∧
          (count slice.runtimeMs = 0 ∧ own = [] ∨
            ∃ mine, own = [mine] ∧ count slice.runtimeMs ≠ 0 ∧
              mine.usage.seq = daemonSeqBase + slice.daemonLines ∧
                mine.usage.seq < decisionSeqBase ∧
                  mine.usage.runtimeMs = count slice.runtimeMs) := by
  unfold Pricing.settlement at priced
  cases measured : slice.runtime with
  | error refused => simp [measured] at priced
  | ok runtime =>
      simp only [measured] at priced
      have shape := runtime_ok measured
      by_cases empty : (requests.map RequestUsage.line ++ runtime).isEmpty = true
      · rw [if_pos empty] at priced
        cases priced
        obtain ⟨_, none_run⟩ := List.append_eq_nil_iff.mp (List.isEmpty_iff.mp empty)
        rcases shape with ⟨still, _⟩ | ⟨_, _, own⟩
        · exact .inl ⟨rfl, still⟩
        · simp [own] at none_run
      · rw [if_neg empty] at priced
        have keeps : ∀ line one, Rater.rate ⟨pricing.book, pricing.posture,
            ⟨slice.startedAt, slice.checkedAt⟩⟩ line = .ok one →
              one.usage.seq = line.seq ∧ one.usage.runtimeMs = line.runtimeMs :=
          fun line one => rate_usage
        generalize Rater.rate ⟨pricing.book, pricing.posture,
          ⟨slice.startedAt, slice.checkedAt⟩⟩ = rate at priced keeps
        cases rated : rateAll rate (requests.map RequestUsage.line ++ runtime) with
        | error refused => simp [rated] at priced
        | ok lines =>
            simp only [rated, Except.ok.injEq] at priced
            subst priced
            obtain ⟨known, own, rfl, requested, mine⟩ := rateAll_append rated
            refine .inr ⟨known, own, rfl, ?_, ?_⟩
            · intro one member
              obtain ⟨line, asked, seq⟩ := rateAll_usage keeps requested one member
              obtain ⟨request, held, rfl⟩ := List.mem_map.mp asked
              exact ⟨request, held, seq⟩
            · rcases shape with ⟨still, rfl⟩ | ⟨moving, bounded, rfl⟩
              · cases mine
                exact .inl ⟨still, rfl⟩
              · obtain ⟨line, one, rfl⟩ := rateAll_singleton mine
                obtain ⟨seq, ran⟩ := keeps _ line one
                refine .inr ⟨line, rfl, moving, seq, ?_, ran⟩
                rw [seq]
                exact bounded

theorem billSlice_logs {lease : LeaseRow} {slice : Slice} {pricing : Pricing}
    {requests : List RequestUsage} {log after : List Line} {now : Nat}
    (billed : billSlice pricing now lease slice requests log = .ok after)
    (unique : (log.map Line.key).Nodup)
    (fresh : count slice.runtimeMs ≠ 0 → ∀ line ∈ runtimeLines lease.id log,
      line.rated.usage.seq ≠ daemonSeqBase + slice.daemonLines) :
    Logs lease slice requests log after := by
  unfold billSlice at billed
  cases priced : pricing.settlement lease slice requests with
  | error refused => simp [priced] at billed
  | ok answer =>
      simp only [priced] at billed
      rcases settlement_ok priced with ⟨rfl, still⟩ | ⟨known, own, rfl, requested, shape⟩
      · cases billed
        refine ⟨unique, fun _ member => member, fun _ member => .inl member, ?_⟩
        rw [if_pos still, List.append_nil]
      · simp only [logMeasured] at billed
        cases logged : logLines now (lease.bill slice pricing (known ++ own)) log with
        | error cause => simp [logged] at billed
        | ok done =>
            obtain ⟨model, next⟩ := done
            simp only [logged, Except.ok.injEq] at billed
            subst billed
            have spec := logLines_logged logged unique
            have inserted := logLines_insert logged
            rw [show (lease.bill slice pricing (known ++ own)).lines = known ++ own from rfl,
              insertLines_append] at inserted
            have low : ∀ one ∈ known, one.usage.seq < daemonSeqBase := by
              intro one member
              obtain ⟨request, _, seq⟩ := requested one member
              rw [seq]
              exact request.numbered
            have before := runtimeLines_requests (lease.bill slice pricing (known ++ own)) lease.id
              now log low
            have request_rows : ∀ line ∈ (insertLines (lease.bill slice pricing (known ++ own))
                now known log).2, line ∈ log ∨ ∃ request ∈ requests,
                  line.work = .fleetLease lease.id ∧ line.rated.usage.seq = request.seq := by
              intro line member
              rcases mem_insertLines member with old | ⟨one, held, rfl⟩
              · exact .inl old
              · obtain ⟨request, asked, number⟩ := requested one held
                exact .inr ⟨request, asked, rfl, number⟩
            rcases shape with ⟨still, rfl⟩ | ⟨mine, rfl, moving, seq, bounded, ran⟩
            · -- no run time: only the requests are logged
              refine ⟨spec.unique, spec.kept, ?_, ?_⟩
              · intro line member
                rw [inserted] at member
                rcases request_rows line member with old | request
                · exact .inl old
                · exact .inr (.inr request)
              · rw [if_pos still, List.append_nil, inserted]
                exact congrArg _ before
            · have work : (lease.bill slice pricing (known ++ [mine])).work =
                  .fleetLease lease.id := rfl
              have added := runtimeLines_own now
                (insertLines (lease.bill slice pricing (known ++ [mine])) now known log).2
                work (by rw [seq]; exact Nat.le_add_right _ _) bounded
                (by rw [before, seq]; exact fresh moving)
              refine ⟨spec.unique, spec.kept, ?_, ?_⟩
              · intro line member
                rw [inserted] at member
                rcases mem_insertLines member with inside | ⟨other, held, rfl⟩
                · rcases request_rows line inside with old | request
                  · exact .inl old
                  · exact .inr (.inr request)
                · rw [List.mem_singleton] at held
                  subst held
                  have own_line : (lease.bill slice pricing (known ++ [other])).row now other ∈
                      runtimeLines lease.id next := by
                    rw [inserted, added]
                    exact List.mem_append_right _ (List.mem_singleton.mpr rfl)
                  exact .inr (.inl ⟨moving, (List.mem_filter.mp own_line).2⟩)
              · rw [if_neg moving, inserted, added, before, List.map_append, List.map_cons,
                  List.map_nil, ← seq, ← ran]
                rfl

theorem billSlice_still {lease : LeaseRow} {slice : Slice} {pricing : Pricing}
    {requests : List RequestUsage} {log after : List Line} {now : Nat}
    (still : count slice.runtimeMs = 0)
    (billed : billSlice pricing now lease slice requests log = .ok after)
    (unique : (log.map Line.key).Nodup) : Logs lease slice requests log after :=
  billSlice_logs billed unique fun moving => absurd still moving

/-! ## What a pass does -/

def System.owned (s : System) : Bool :=
  s.lease.status = .active &&
    (match s.world.slot with
      | none => false
      | some slot => decide (slot.fence ≤ s.lease.fence)) &&
    match s.world.admission with
    | none => false
    | some admission => decide (admission.leaseFence = some s.lease.fence) && !admission.settled

structure Metered (call : Call) (s : System) (slice : Slice) (lease : LeaseRow) : Prop where
  runner : s.lease.runner = call.runner
  owned : s.owned = true
  id : lease.id = s.lease.id
  cursor : lease.lastMeteredAt = stored (s.lease.meteredUntil call.checkedAt)
  runtimeMs : slice.runtimeMs =
    milliseconds (s.lease.meteredUntil call.checkedAt - s.lease.lastMeteredAt)
  daemonLines : slice.daemonLines = (runtimeLines s.lease.id s.log).length
  deadline : lease.expiresAt = s.lease.expiresAt ∨
    call.checkedAt < s.lease.expiresAt ∧ lease.expiresAt % 1000 = 0 ∧
      lease.expiresAt ≤ call.checkedAt + leaseTtl + 500

theorem meterLease_metered {interval : Int → Int} {settles : Bool} {call : Call} {s : System}
    {slice : Slice} {lease : LeaseRow} {world : World}
    (won : meterLease interval settles call s.lease s.world s.log = some (slice, lease, world)) :
    Metered call s slice lease := by
  unfold meterLease at won
  by_cases probe : s.lease.runner = call.runner ∧ s.lease.status = .active ∧ s.world.event = true
  · rw [if_pos probe] at won
    obtain ⟨runner, active, _⟩ := probe
    cases held : s.world.slot with
    | none => simp [held] at won
    | some slot =>
        simp only [held] at won
        by_cases allowed : guarded interval settles s.lease slot s.world call.checkedAt = true
        · rw [if_pos allowed] at won
          unfold guarded at allowed
          rw [Bool.and_eq_true] at allowed
          obtain ⟨fence, admission⟩ := allowed
          have current : slot.fence ≤ s.lease.fence := by
            cases settles with
            | true => simpa using fence
            | false =>
                simp only [Bool.false_eq_true, if_false, Bool.and_eq_true, decide_eq_true_eq]
                  at fence
                omega
          have owned : s.owned = true := by
            unfold System.owned
            rw [held]
            simp [active, current, admission]
          cases settles with
          | true =>
              simp only [if_true, Option.some.injEq, Prod.mk.injEq] at won
              obtain ⟨rfl, rfl, _⟩ := won
              exact ⟨runner, owned, rfl, rfl, rfl, rfl, .inl rfl⟩
          | false =>
              simp only [Bool.false_eq_true, if_false, Bool.and_eq_true, decide_eq_true_eq]
                at fence
              simp only [Bool.false_eq_true, if_false, Option.some.injEq, Prod.mk.injEq] at won
              obtain ⟨rfl, rfl, _⟩ := won
              refine ⟨runner, owned, rfl, rfl, rfl, rfl, .inr ⟨fence.1.1.2, stored_whole _, ?_⟩⟩
              have capped : s.lease.capped interval s.world.task call.checkedAt ≤
                  call.checkedAt + leaseTtl := least_le_first _ _
              have near := stored_near (s.lease.capped interval s.world.task call.checkedAt)
              change stored (s.lease.capped interval s.world.task call.checkedAt) ≤ _
              omega
        · rw [if_neg allowed] at won
          exact nomatch won
  · rw [if_neg probe] at won
    exact nomatch won

/-! ## What every pass keeps -/

/-- The stretches billed, newest first, lie end to end from the start to the
cursor, each within the deadline it was billed under. -/
def Telescopes (start : Int) : List Billed → Int → Prop
  | [], cursor => cursor = start
  | last :: earlier, cursor =>
      last.stop = cursor ∧ last.since < last.stop ∧ last.stop ≤ last.deadline ∧
        Telescopes start earlier last.since

def System.runtime (s : System) : List (Nat × UInt32) :=
  (runtimeLines s.lease.id s.log).map fun line =>
    (line.rated.usage.seq, line.rated.usage.runtimeMs)

structure Sound (start : Int) (s : System) : Prop where
  unique : (s.log.map Line.key).Nodup
  numbers : s.runtime.map Prod.fst =
    (List.range s.runtime.length).map fun index => daemonSeqBase + index
  amounts : s.runtime.map (fun line => (line.2.toNat : Int) * 1000) =
    s.billed.reverse.map fun stretch => stretch.stop - stretch.since
  cursor_whole : s.lease.lastMeteredAt % 1000 = 0
  deadline_whole : s.lease.expiresAt % 1000 = 0
  nonneg : 0 ≤ s.lease.lastMeteredAt
  short : s.lease.expiresAt ≤ s.lease.lastMeteredAt + leaseTtl + 1000
  telescopes : Telescopes start s.billed s.lease.lastMeteredAt

theorem fresh_number {start : Int} {s : System} (sound : Sound start s) :
    ∀ line ∈ runtimeLines s.lease.id s.log,
      line.rated.usage.seq ≠ daemonSeqBase + (runtimeLines s.lease.id s.log).length := by
  intro line member same
  have length : s.runtime.length = (runtimeLines s.lease.id s.log).length := List.length_map ..
  have listed : line.rated.usage.seq ∈ s.runtime.map Prod.fst := by
    rw [System.runtime, List.map_map]
    exact List.mem_map_of_mem member
  rw [sound.numbers, same] at listed
  obtain ⟨index, below, equal⟩ := List.mem_map.mp listed
  rw [List.mem_range, length] at below
  omega

theorem sound_measured {start : Int} {s : System} {slice : Slice} {lease : LeaseRow}
    {world : World} {pricing : Pricing} {requests : List RequestUsage} {now : Nat}
    {answer : Except MeterError (List Line)} (sound : Sound start s)
    (answered : billSlice pricing now s.lease slice requests s.log = answer)
    (id : lease.id = s.lease.id)
    (daemonLines : slice.daemonLines = (runtimeLines s.lease.id s.log).length)
    (advance : lease.lastMeteredAt = s.lease.lastMeteredAt + slice.runtimeMs * 1000)
    (forward : 0 ≤ slice.runtimeMs)
    (within : slice.runtimeMs ≠ 0 → lease.lastMeteredAt ≤ s.lease.expiresAt)
    (deadline_whole : lease.expiresAt % 1000 = 0)
    (short : lease.expiresAt ≤ lease.lastMeteredAt + leaseTtl + 1000) :
    Sound start (s.measured lease world answer) := by
  cases answer with
  | error refused => exact sound
  | ok log =>
      have small : slice.runtimeMs ≤ 31000 := by
        have bound := sound.short
        unfold leaseTtl at bound
        by_cases still : slice.runtimeMs = 0
        · omega
        · have reached := within still
          omega
      have amount := count_toNat forward small
      have logs := billSlice_logs answered sound.unique fun _ => by
        rw [daemonLines]
        exact fresh_number sound
      have length : s.runtime.length = (runtimeLines s.lease.id s.log).length :=
        List.length_map ..
      have runtime : (s.measured lease world (.ok log)).runtime = s.runtime ++
          if count slice.runtimeMs = 0 then []
          else [(daemonSeqBase + s.runtime.length, count slice.runtimeMs)] := by
        rw [length, ← daemonLines]
        simp only [System.runtime, System.measured, id]
        exact logs.runtime
      have whole : lease.lastMeteredAt % 1000 = 0 := by
        have before := sound.cursor_whole
        omega
      have nonneg : 0 ≤ lease.lastMeteredAt := by
        have before := sound.nonneg
        omega
      by_cases still : slice.runtimeMs = 0
      · have none_counted : count slice.runtimeMs = 0 := by
          rw [still]
          rfl
        have unmoved : lease.lastMeteredAt = s.lease.lastMeteredAt := by omega
        rw [if_pos none_counted, List.append_nil] at runtime
        have billed : (s.measured lease world (.ok log)).billed = s.billed := by
          simp only [System.measured]
          rw [if_neg (by omega)]
        refine ⟨logs.unique, ?_, ?_, whole, deadline_whole, nonneg, short, ?_⟩
        · rw [runtime]
          exact sound.numbers
        · rw [runtime, billed]
          exact sound.amounts
        · rw [billed]
          exact unmoved.symm ▸ sound.telescopes
      · have counted : count slice.runtimeMs ≠ 0 := by
          intro zero
          rw [zero] at amount
          exact still amount.symm
        have moved : s.lease.lastMeteredAt < lease.lastMeteredAt := by omega
        rw [if_neg counted] at runtime
        have billed : (s.measured lease world (.ok log)).billed =
            ⟨s.lease.lastMeteredAt, lease.lastMeteredAt, s.lease.expiresAt⟩ :: s.billed := by
          simp only [System.measured]
          rw [if_pos moved]
        refine ⟨logs.unique, ?_, ?_, whole, deadline_whole, nonneg, short, ?_⟩
        · rw [runtime, List.map_append, sound.numbers, List.length_append, List.length_singleton,
            List.range_succ, List.map_append]
          rfl
        · rw [runtime, billed, List.map_append, sound.amounts, List.reverse_cons, List.map_append]
          simp only [List.map_cons, List.map_nil]
          congr 2
          omega
        · rw [billed]
          exact ⟨rfl, moved, within still, sound.telescopes⟩

structure Recorded (call : Call) (s : System) (after : List Line) : Prop where
  unique : (after.map Line.key).Nodup
  runtime : (runtimeLines s.lease.id after).map (fun line =>
      (line.rated.usage.seq, line.rated.usage.runtimeMs)) = s.runtime
  added : ∀ line ∈ after, line ∈ s.log ∨ s.lease.runner = call.runner ∧
    ∃ request ∈ call.requests,
      line.work = .fleetLease s.lease.id ∧ line.rated.usage.seq = request.seq

theorem originalRequests_recorded {call : Call} {s : System} {after : List Line}
    (recorded : originalRequests call s.lease s.world s.log = .ok after)
    (unique : (s.log.map Line.key).Nodup) : Recorded call s after := by
  unfold originalRequests at recorded
  by_cases empty : call.requests.isEmpty = true
  · rw [if_pos empty] at recorded
    cases recorded
    exact ⟨unique, rfl, fun _ member => .inl member⟩
  · rw [if_neg empty] at recorded
    by_cases owner : s.lease.runner = call.runner ∧ s.world.event = true
    · rw [if_pos owner] at recorded
      have logs := billSlice_still rfl recorded unique
      refine ⟨logs.unique, ?_, ?_⟩
      · have runtime := logs.runtime
        simp only [show count 0 = 0 from rfl, if_true, List.append_nil] at runtime
        exact runtime
      · intro line member
        rcases logs.added line member with old | ⟨moving, _⟩ | request
        · exact .inl old
        · exact absurd rfl moving
        · exact .inr ⟨owner.1, request⟩
    · rw [if_neg owner] at recorded
      cases recorded
      exact ⟨unique, rfl, fun _ member => .inl member⟩

theorem sound_recorded {start : Int} {s : System} (call : Call) (sound : Sound start s) :
    Sound start (s.logged (originalRequests call s.lease s.world s.log)) := by
  cases recorded : originalRequests call s.lease s.world s.log with
  | error refused => exact sound
  | ok log =>
      have spec := originalRequests_recorded recorded sound.unique
      have runtime : (s.logged (.ok log)).runtime = s.runtime := spec.runtime
      refine ⟨spec.unique, ?_, ?_, sound.cursor_whole, sound.deadline_whole, sound.nonneg,
        sound.short, sound.telescopes⟩
      · rw [runtime]
        exact sound.numbers
      · rw [runtime]
        exact sound.amounts

theorem meteredUntil_le {lease : LeaseRow} {checkedAt : Int}
    (moved : lease.meteredUntil checkedAt ≠ lease.lastMeteredAt) :
    lease.meteredUntil checkedAt ≤ lease.expiresAt := by
  unfold LeaseRow.meteredUntil at moved ⊢
  omega

theorem sound_metered {start : Int} {s : System} {call : Call} {slice : Slice}
    {lease : LeaseRow} (world : World) (sound : Sound start s)
    (metered : Metered call s slice lease) :
    Sound start (s.measured lease world
      (billSlice call.pricing call.now s.lease slice call.requests s.log)) := by
  have later : s.lease.lastMeteredAt ≤ s.lease.meteredUntil call.checkedAt := by
    unfold LeaseRow.meteredUntil
    omega
  have advance := stored_eq sound.nonneg sound.cursor_whole later
  have forward : 0 ≤ slice.runtimeMs := by
    rw [metered.runtimeMs]
    unfold milliseconds
    rw [if_pos (by omega)]
    omega
  rw [← metered.cursor, ← metered.runtimeMs] at advance
  refine sound_measured sound rfl metered.id metered.daemonLines advance forward ?_ ?_ ?_
  · intro moving
    rw [metered.cursor]
    have nonneg := sound.nonneg
    apply stored_le (by omega) sound.deadline_whole
    apply meteredUntil_le
    intro same
    rw [metered.runtimeMs, same, Int.sub_self] at moving
    exact moving rfl
  · rcases metered.deadline with same | ⟨_, whole, _⟩
    · rw [same]
      exact sound.deadline_whole
    · exact whole
  · rcases metered.deadline with same | ⟨before, _, capped⟩
    · have short := sound.short
      omega
    · -- a renewal's clock reads before the deadline, so the cursor reaches it
      have reached : call.checkedAt ≤ s.lease.meteredUntil call.checkedAt := by
        unfold LeaseRow.meteredUntil
        omega
      have near := stored_near (s.lease.meteredUntil call.checkedAt)
      rw [← metered.cursor] at near
      omega

theorem sound_step {interval : Int → Int} {start : Int} {s : System} (event : Event)
    (sound : Sound start s) : Sound start (s.step interval event) := by
  cases event with
  | renew call canRenew =>
      simp only [System.step]
      cases canRenew with
      | false => exact sound_recorded call sound
      | true =>
          simp only [if_true]
          cases won : meterLease interval false call s.lease s.world s.log with
          | none => exact sound_recorded call sound
          | some answer =>
              obtain ⟨slice, lease, world⟩ := answer
              exact sound_metered world sound (meterLease_metered won)
  | report call =>
      simp only [System.step]
      cases won : meterLease interval true call s.lease s.world s.log with
      | none =>
          simp only
          split
          · exact sound
          · exact sound_recorded call sound
      | some answer =>
          obtain ⟨slice, lease, world⟩ := answer
          exact sound_metered world sound (meterLease_metered won)
  | recordKnown call => exact sound_recorded call sound
  | sweep now stamp pricing =>
      simp only [System.step, billExpiredSlice]
      by_cases due : s.lease.status ≠ .reported ∧ s.lease.expiresAt < now ∧
          s.lease.lastMeteredAt < s.lease.expiresAt
      · rw [if_pos due]
        have deadline_whole := sound.deadline_whole
        have advance := stored_eq sound.nonneg sound.cursor_whole (Int.le_of_lt due.2.2)
        have stays : stored s.lease.expiresAt = s.lease.expiresAt := by
          have nonneg := sound.nonneg
          unfold stored milliseconds
          rw [if_pos (by omega)]
          omega
        rw [stays] at advance
        refine sound_measured sound rfl rfl rfl advance ?_ ?_ deadline_whole ?_
        · change 0 ≤ milliseconds (s.lease.expiresAt - s.lease.lastMeteredAt)
          unfold milliseconds
          rw [if_pos (by omega)]
          omega
        · exact fun _ => Int.le_refl _
        · unfold leaseTtl
          simp only
          omega
      · rw [if_neg due]
        exact sound
  | world world => exact ⟨sound.unique, sound.numbers, sound.amounts, sound.cursor_whole,
      sound.deadline_whole, sound.nonneg, sound.short, sound.telescopes⟩
  | expire =>
      simp only [System.step]
      split
      · exact ⟨sound.unique, sound.numbers, sound.amounts, sound.cursor_whole,
          sound.deadline_whole, sound.nonneg, sound.short, sound.telescopes⟩
      · exact sound
  | bind stamp =>
      have short := sound.short
      have whole := sound.deadline_whole
      have stamped := stored_whole stamp.executionDeadlineAt
      refine ⟨sound.unique, sound.numbers, sound.amounts, sound.cursor_whole, ?_, sound.nonneg,
        ?_, sound.telescopes⟩
      · simp only [System.step]
        omega
      · simp only [System.step]
        omega

/-! ## Every order of passes -/

/-- A lease as it is issued: its cursor where its claim was checked, and the
deadline its claim was granted before that. -/
def System.issue (lease : LeaseRow) (claimedAt checkedAt : Nat) (world : World) : System where
  lease :=
    { lease with
      status := .active
      lastMeteredAt := stored checkedAt
      expiresAt := stored (claimedAt + leaseTtl)
      task := none }
  world := world
  log := []
  billed := []

theorem sound_issue (lease : LeaseRow) {claimedAt checkedAt : Nat} (world : World)
    (order : claimedAt ≤ checkedAt) :
    Sound (stored checkedAt) (System.issue lease claimedAt checkedAt world) := by
  have cursor := stored_near checkedAt
  have deadline := stored_near (claimedAt + leaseTtl)
  refine ⟨List.nodup_nil, rfl, rfl, stored_whole _, stored_whole _, ?_, ?_, rfl⟩
  · change 0 ≤ stored checkedAt
    unfold stored milliseconds
    rw [if_pos (Int.natCast_nonneg _)]
    omega
  · change stored (claimedAt + leaseTtl) ≤ stored checkedAt + leaseTtl + 1000
    omega

theorem telescopes_sum {start cursor : Int} {billed : List Billed}
    (telescopes : Telescopes start billed cursor) :
    (billed.map fun stretch => stretch.stop - stretch.since).sum = cursor - start := by
  induction billed generalizing cursor with
  | nil =>
      rw [telescopes]
      simp
  | cons last earlier ih =>
      obtain ⟨stop, _, _, rest⟩ := telescopes
      rw [List.map_cons, List.sum_cons, ih rest]
      omega

theorem telescopes_below {start cursor : Int} {billed : List Billed}
    (telescopes : Telescopes start billed cursor) :
    ∀ stretch ∈ billed, stretch.since < stretch.stop ∧ stretch.stop ≤ stretch.deadline ∧
      start ≤ stretch.since ∧ stretch.stop ≤ cursor := by
  have above : start ≤ cursor ∧ ∀ stretch ∈ billed, stretch.since < stretch.stop ∧
      stretch.stop ≤ stretch.deadline ∧ start ≤ stretch.since ∧ stretch.stop ≤ cursor := by
    induction billed generalizing cursor with
    | nil =>
        rw [telescopes]
        exact ⟨Int.le_refl _, by simp⟩
    | cons last earlier ih =>
        obtain ⟨stop, forward, within, rest⟩ := telescopes
        obtain ⟨low, others⟩ := ih rest
        refine ⟨by omega, ?_⟩
        intro stretch member
        rcases List.mem_cons.mp member with rfl | inside
        · exact ⟨forward, within, low, by omega⟩
        · obtain ⟨ahead, bounded, since, before⟩ := others stretch inside
          exact ⟨ahead, bounded, since, by omega⟩
  exact above.2

theorem telescopes_disjoint {start cursor : Int} {billed : List Billed}
    (telescopes : Telescopes start billed cursor) :
    billed.Pairwise fun later earlier => earlier.stop ≤ later.since := by
  induction billed generalizing cursor with
  | nil => exact List.Pairwise.nil
  | cons last earlier ih =>
      obtain ⟨_, _, _, rest⟩ := telescopes
      refine List.Pairwise.cons ?_ (ih rest)
      intro stretch member
      exact (telescopes_below rest stretch member).2.2.2

def Event.isCall (event : Event) (call : Call) : Prop :=
  (∃ canRenew, event = .renew call canRenew) ∨ event = .report call ∨ event = .recordKnown call

/-- What a call that does not own the lease leaves: no run time, no row moved,
and no line but the known requests of the lease's own runner. -/
structure BillsNoRunTime (call : Call) (s next : System) : Prop where
  lease : next.lease = s.lease
  world : next.world = s.world
  billed : next.billed = s.billed
  runtimeBilled : next.runtimeBilled = s.runtimeBilled
  added : ∀ line ∈ next.log, line ∈ s.log ∨ s.lease.runner = call.runner ∧
    ∃ request ∈ call.requests,
      line.work = .fleetLease s.lease.id ∧ line.rated.usage.seq = request.seq

theorem runtimeBilled_eq (s : System) :
    s.runtimeBilled = (s.runtime.map fun line => line.2.toNat).sum := by
  rw [System.runtimeBilled, System.runtime, List.map_map]
  rfl

theorem stale_recorded {start : Int} {s : System} (call : Call) (sound : Sound start s) :
    BillsNoRunTime call s (s.logged (originalRequests call s.lease s.world s.log)) := by
  cases recorded : originalRequests call s.lease s.world s.log with
  | error refused => exact ⟨rfl, rfl, rfl, rfl, fun _ member => .inl member⟩
  | ok log =>
      have spec := originalRequests_recorded recorded sound.unique
      refine ⟨rfl, rfl, rfl, ?_, spec.added⟩
      have runtime : (s.logged (.ok log)).runtime = s.runtime := spec.runtime
      rw [runtimeBilled_eq, runtimeBilled_eq, runtime]

theorem stale_call {interval : Int → Int} {start : Int} {s : System} {call : Call}
    {event : Event} (sound : Sound start s) (called : event.isCall call)
    (stale : s.owned = false ∨ s.lease.runner ≠ call.runner) :
    BillsNoRunTime call s (s.step interval event) := by
  have lost : ∀ settles, meterLease interval settles call s.lease s.world s.log = none := by
    intro settles
    cases won : meterLease interval settles call s.lease s.world s.log with
    | none => rfl
    | some answer =>
        obtain ⟨slice, lease, world⟩ := answer
        have metered := meterLease_metered won
        rcases stale with unowned | other
        · rw [metered.owned] at unowned
          exact nomatch unowned
        · exact absurd metered.runner other
  rcases called with ⟨canRenew, rfl⟩ | rfl | rfl
  · simp only [System.step, lost, ite_self]
    exact stale_recorded call sound
  · simp only [System.step, lost]
    split
    · exact ⟨rfl, rfl, rfl, rfl, fun _ member => .inl member⟩
    · exact stale_recorded call sound
  · exact stale_recorded call sound

/-- What holds of a lease after any passes, issued with its cursor at `start`. -/
structure Metering (interval : Int → Int) (start : Int) (s : System) : Prop where
  total : (s.runtimeBilled : Int) * 1000 = s.lease.lastMeteredAt - start
  withinDeadline : ∀ stretch ∈ s.billed, start ≤ stretch.since ∧ stretch.since < stretch.stop ∧
    stretch.stop ≤ stretch.deadline
  amounts : s.runtime.map (fun line => (line.2.toNat : Int) * 1000) =
    s.billed.reverse.map fun stretch => stretch.stop - stretch.since
  disjoint : s.billed.Pairwise fun later earlier => earlier.stop ≤ later.since
  fenced : ∀ call event, Event.isCall event call →
    s.owned = false ∨ s.lease.runner ≠ call.runner →
      BillsNoRunTime call s (s.step interval event)

theorem sum_toNat (lines : List (Nat × UInt32)) :
    (((lines.map fun line => line.2.toNat).sum : Nat) : Int) * 1000 =
      (lines.map fun line => (line.2.toNat : Int) * 1000).sum := by
  induction lines with
  | nil => rfl
  | cons line rest ih =>
      rw [List.map_cons, List.map_cons, List.sum_cons, List.sum_cons, ← ih, Int.natCast_add,
        Int.add_mul]

/-- Whatever order renewals, reports, records, sweeps and the writers around
them take, run time is billed once, as far as the cursor moved, within the
deadlines granted, and to the holder alone. -/
theorem metering_telescopes (interval : Int → Int) (lease : LeaseRow)
    (claimedAt checkedAt : Nat) (order : claimedAt ≤ checkedAt) (world : World)
    (events : List Event) :
    Metering interval (stored checkedAt)
      (Run.final (System.step interval) (System.issue lease claimedAt checkedAt world)
        events) := by
  have keeps : ∀ s event, Sound (stored checkedAt) s →
      Sound (stored checkedAt) (s.step interval event) :=
    fun _ event held => sound_step event held
  have sound := Run.invariant_of_step (Sound (stored checkedAt)) keeps
    (sound_issue lease world order) events _ (Run.final_mem_states _ _ _)
  revert sound
  generalize Run.final (System.step interval) (System.issue lease claimedAt checkedAt world)
    events = s
  intro sound
  refine ⟨?_, ?_, sound.amounts, telescopes_disjoint sound.telescopes, ?_⟩
  · rw [runtimeBilled_eq, sum_toNat, sound.amounts, List.map_reverse, List.sum_reverse]
    exact telescopes_sum sound.telescopes
  · intro stretch member
    obtain ⟨forward, within, since, _⟩ := telescopes_below sound.telescopes stretch member
    exact ⟨since, forward, within⟩
  · intro call event called stale
    exact stale_call sound called stale

/-! ## A superseded holder -/

def flatBook : PriceBook :=
  ⟨[⟨"base", ⟨0, none, 0, 3000000, 300000, none, none, none, 15000000⟩⟩]⟩

def lateCall (checkedAt : Int) : Call where
  runner := "first"
  requests := [⟨0, 5000000, 1000, 0, 0, 0, 0, 10, by decide⟩]
  pricing := ⟨flatBook, .platform, "provider", "model"⟩
  checkedAt := checkedAt
  now := 12

def heldWorld (fence : Int) : World where
  slot := some ⟨fence, 32000000⟩
  event := true
  task := none
  admission := some ⟨some 1, false⟩
  fleetName := none

def firstLease : LeaseRow where
  id := "lease"
  runner := "first"
  tenant := "tenant"
  workspace := "workspace"
  fleet := "fleet"
  eventId := "event"
  fence := 1
  status := .active
  createdAt := 2000000
  lastMeteredAt := 0
  expiresAt := 0
  task := none

/-- A claim superseded the holder, and its report's request is still charged. -/
theorem superseded_report_charges_its_request :
    let issued := System.issue firstLease 2000000 2000000 (heldWorld 1)
    let s := Run.final (System.step id) issued [.world (heldWorld 2)]
    let next := s.step id (.report (lateCall 12000000))
    s.owned = false ∧ s.lease.runner = (lateCall 12000000).runner ∧
      (s.log.map fun line => line.rated.charged).sum = 0 ∧
        (next.log.map fun line => line.rated.charged).sum = 3150 := by
  decide +kernel

/-- Two renewals, then a claim by another runner and the first one's report:
the run time to the second renewal is billed, and nothing after it. -/
theorem two_renewals_telescope :
    let s := Run.final (System.step id) (System.issue firstLease 2000000 2000000 (heldWorld 1))
      [.renew (lateCall 11400700) true, .renew (lateCall 20000400) true, .world (heldWorld 2),
        .report (lateCall 24000000)]
    s.runtimeBilled = 18000 ∧ Metering id (stored 2000000) s :=
  ⟨by decide +kernel, metering_telescopes id firstLease 2000000 2000000 (Nat.le_refl _)
    (heldWorld 1) _⟩

end Agentsfleet.Lease
