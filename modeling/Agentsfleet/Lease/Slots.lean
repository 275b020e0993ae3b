import Agentsfleet.Core.Clock
import Agentsfleet.Library.Run
import Agentsfleet.Library.SortedMap
import Agentsfleet.Library.Table
import Mathlib.Data.String.Basic

/-!
# Fleet slots

One slot a fleet: who may lease it, the last fencing token, and the sandbox hold.
Every statement on a slot holds its row to the commit, so statements on one slot
take effect one at a time; what a statement reads of other tables (gates, runners
that beat, the snapshot its head was picked from) is data of its event.  Instants
are microseconds of the database's clock; a column keeps whole milliseconds.
-/

set_option autoImplicit false

namespace Agentsfleet.Slots

open Agentsfleet.Core
open Agentsfleet.Library

def leaseTtl : Int := 30000000

def sandboxHoldIdle : Int := 600000000

/-- How far behind the clock a freed deadline is written. -/
def freedBehind : Int := 1000

/-- A row of `runner.fleet_slots`. -/
structure Slot where
  lastRunner : Option String
  fencingToken : Int
  leaseExpiresAt : Int
  holdExpiresAt : Option Int
deriving DecidableEq

/-- The queue columns of a row of `fleet.admissions`. -/
structure Admission where
  id : String
  fleet : String
  leaseFence : Option Int
  settledAt : Option Int
  parkedAt : Option Int
deriving DecidableEq

inductive Kind where
  | fresh
  | reclaim
deriving DecidableEq

/-- What a won claim hands its pass. -/
structure Acquired where
  fleet : String
  runner : String
  fence : Int
  leasedUntil : Int
  kind : Kind
  admission : String
  resumeHold : Bool
deriving DecidableEq

inductive Status where
  | active
  | reported
  | expired
deriving DecidableEq

/-- The columns of `runner.leases` the slot is fenced by, and whether the lease
resumes a sandbox. -/
structure Lease where
  id : String
  runner : String
  fleet : String
  admission : String
  fencingToken : Int
  expiresAt : Int
  status : Status
  resumes : Bool
deriving DecidableEq

structure Win where
  acquired : Acquired
  hold : Option Int
deriving DecidableEq

/-- How long a claim lasts, as the statements under its token left it. -/
structure Tenure where
  fleet : String
  runner : String
  token : Int
  expiresAt : Int
  released : Bool
deriving DecidableEq

structure Grant where
  fleet : String
  runner : String
  token : Int
  expiresAt : Int
deriving DecidableEq

structure System where
  now : Int
  slots : SortedMap String Slot
  admissions : List Admission
  leases : List Lease
  wins : List Win
  tenures : List Tenure
  grants : List Grant
  settlements : List (String × Int)

def System.start (now : Int) : System := ⟨now, SortedMap.empty, [], [], [], [], [], []⟩

/-! ## Claiming a head -/

structure Reading where
  /-- The runners that beat in time, are active and are not degraded. -/
  serving : List String
  /-- The oldest leasable admission of the statement's snapshot. -/
  oldest : Option String
  /-- Whether an unresolved gate holds it. -/
  gated : Bool
  /-- How long after the claim's instant the slot is written. -/
  waited : Nat

def Slot.heldFrom (now : Int) (runner : String) (serving : List String) (slot : Slot) : Bool :=
  slot.holdExpiresAt.any (fun hold => now < hold) && slot.lastRunner ≠ some runner &&
    slot.lastRunner.any serving.contains

def claimSlot (now : Int) (runner : String) (reading : Reading) : Option Slot → Option Slot
  | none => some ⟨some runner, 1, stored (now + leaseTtl), none⟩
  | some slot =>
      if slot.leaseExpiresAt < now ∧ slot.heldFrom now runner reading.serving = false then
        some
          { lastRunner := some runner
            fencingToken := slot.fencingToken + 1
            leaseExpiresAt := stored (now + reading.waited + leaseTtl)
            holdExpiresAt := if slot.lastRunner = some runner then slot.holdExpiresAt else none }
      else none

/-- The admission a claim may stamp: its snapshot's head, re-read under its lock. -/
def System.head (s : System) (fleet : String) (reading : Reading) : Option Admission :=
  match reading.oldest with
  | none => none
  | some oldest =>
      match s.admissions.find? fun admission => admission.id = oldest with
      | none => none
      | some admission =>
          if admission.fleet = fleet ∧ admission.settledAt = none ∧
              (admission.parkedAt = none ∨ reading.gated = false) then some admission
          else none

def lastLease : List Lease → Option Lease
  | [] => none
  | lease :: rest =>
      match lastLease rest with
      | none => some lease
      | some other => if other.fencingToken ≤ lease.fencingToken then some lease else some other

def Lease.expire (lease : Lease) : Lease :=
  { lease with status := if lease.status = .active then .expired else lease.status }

def Admission.stamp (fence : Int) (admission : Admission) : Admission :=
  { admission with leaseFence := some fence }

/-- `claim_admission_head.sql` and its rollback where it found no head. -/
def System.ledgerClaim (s : System) (fleet runner : String) (reading : Reading) :
    Option (Acquired × System) :=
  match claimSlot s.now runner reading (s.slots.get fleet) with
  | none => none
  | some slot =>
      match s.head fleet reading with
      | none => none
      | some admission =>
          let prior := lastLease
            (s.leases.filter fun lease => lease.fleet = fleet && lease.admission = admission.id)
          let kind := if prior.isSome then Kind.reclaim else Kind.fresh
          let held := ((s.slots.get fleet).bind Slot.holdExpiresAt).any fun hold => s.now < hold
          let holder := (s.slots.get fleet).bind Slot.lastRunner
          let acquired : Acquired :=
            { fleet := fleet
              runner := runner
              fence := slot.fencingToken
              leasedUntil := slot.leaseExpiresAt
              kind := kind
              admission := admission.id
              resumeHold := held && holder = some runner && kind = .fresh }
          some (acquired,
            { s with
              now := s.now + reading.waited
              slots := s.slots.insert fleet slot
              admissions := Table.update (fun other => decide (other.id = admission.id))
                (Admission.stamp slot.fencingToken) s.admissions
              leases := Table.update (fun lease => prior.any fun last => last.id = lease.id)
                Lease.expire s.leases
              wins := ⟨acquired, (s.slots.get fleet).bind Slot.holdExpiresAt⟩ :: s.wins
              tenures := ⟨fleet, runner, slot.fencingToken, slot.leaseExpiresAt, false⟩ ::
                s.tenures })

/-! ## The slot's holder -/

def System.heldSlot (s : System) (fleet : String) (token : Int) : Option Slot :=
  match s.slots.get fleet with
  | none => none
  | some slot => if slot.fencingToken = token then some slot else none

def changeTenures (fleet : String) (token : Int) (change : Tenure → Tenure)
    (tenures : List Tenure) : List Tenure :=
  Table.update (fun tenure => tenure.fleet = fleet && tenure.token = token) change tenures

def Tenure.until (deadline : Int) (tenure : Tenure) : Tenure :=
  { tenure with expiresAt := deadline }

def Tenure.release (tenure : Tenure) : Tenure := { tenure with released := true }

/-- `release_unleased_slot.sql`. -/
def System.release (s : System) (fleet : String) (token : Int) : System :=
  match s.heldSlot fleet token with
  | none => s
  | some slot =>
      { s with
        slots := s.slots.insert fleet
          { slot with
            leaseExpiresAt := stored (s.now - freedBehind)
            lastRunner := if slot.holdExpiresAt.any (fun hold => s.now < hold) then slot.lastRunner
              else none }
        tenures := changeTenures fleet token Tenure.release s.tenures }

def grantedHold (now : Int) (asked : Option Int) : Option Int :=
  match asked with
  | none => none
  | some deadline =>
      if now < deadline then some (stored (min deadline (now + sandboxHoldIdle))) else none

/-- `release_fleet_slot.sql`, for a report of `runner`. -/
def System.releaseThrough (s : System) (runner fleet : String) (token : Int)
    (asked : Option Int) : System :=
  match s.heldSlot fleet token with
  | none => s
  | some slot =>
      { s with
        slots := s.slots.insert fleet
          { slot with
            leaseExpiresAt := stored (s.now - freedBehind)
            holdExpiresAt := grantedHold s.now asked }
        tenures := changeTenures fleet token Tenure.release s.tenures
        grants := ((grantedHold s.now asked).toList.map fun deadline =>
          ⟨fleet, runner, token, deadline⟩) ++ s.grants }

/-- `lock_admission.sql`: the admission under the latest claim's token. -/
def System.lockAdmission (s : System) (fleet admission : String) (token : Int) :
    Option Admission :=
  match s.heldSlot fleet token with
  | none => none
  | some _ => s.admissions.find? fun row =>
      row.id = admission && row.fleet = fleet && row.leaseFence = some token && row.settledAt.isNone

def Admission.settle (now : Int) (admission : Admission) : Admission :=
  { admission with settledAt := some now, parkedAt := none }

def Admission.park (now : Int) (admission : Admission) : Admission :=
  { admission with parkedAt := some now }

def System.settleAdmission (s : System) (admission : String) (token : Int) : System :=
  { s with
    admissions := Table.update (fun row => decide (row.id = admission)) (Admission.settle s.now)
      s.admissions
    settlements := (admission, token) :: s.settlements }

/-- `settle_terminal`: an admission whose event has a durable ending. -/
def System.settleTerminal (s : System) (fleet admission : String) (token : Int) (ended : Bool) :
    System :=
  match s.lockAdmission fleet admission token with
  | none => s
  | some row => if ended then s.settleAdmission row.id token else s

/-- `park`: the stamp where a gate still waits, and the slot freed. -/
def System.park (s : System) (fleet admission : String) (token : Int) (waiting : Bool) : System :=
  match s.lockAdmission fleet admission token with
  | none => s
  | some row =>
      let parked := if waiting then
          Table.update (fun other => decide (other.id = row.id)) (Admission.park s.now) s.admissions
        else s.admissions
      { s with admissions := parked }.release fleet token

/-! ## Leases -/

/-- `issue`: the lease of a pass's own claim, its slot cut to the task's deadline. -/
def System.issue (s : System) (id fleet runner : String) (token checkedAt : Int)
    (deadline : Option Int) : System :=
  match s.wins.find? fun win =>
      win.acquired.fleet = fleet && win.acquired.fence = token && win.acquired.runner = runner with
  | none => s
  | some win =>
      match s.heldSlot fleet token with
      | none => s
      | some slot =>
          if checkedAt < win.acquired.leasedUntil ∧ checkedAt < slot.leaseExpiresAt ∧
              s.now < slot.leaseExpiresAt ∧ (s.leases.any fun lease => lease.id = id) = false then
            let until_at := match deadline with
              | none => slot.leaseExpiresAt
              | some deadline => min slot.leaseExpiresAt (stored deadline)
            { s with
              slots := s.slots.insert fleet { slot with leaseExpiresAt := until_at }
              leases := s.leases ++
                [⟨id, runner, fleet, win.acquired.admission, token, until_at, .active,
                  win.acquired.resumeHold⟩]
              tenures := changeTenures fleet token (Tenure.until until_at) s.tenures }
          else s

def System.liveLease (s : System) (id runner : String) : Option Lease :=
  match s.leases.find? fun lease =>
      lease.id = id && lease.runner = runner && lease.status = .active with
  | none => none
  | some lease =>
      if (s.admissions.any fun row => row.id = lease.admission && row.fleet = lease.fleet &&
          row.leaseFence = some lease.fencingToken && row.settledAt.isNone) = true then some lease
      else none

/-- A renewal of the live holder, to `capped`. -/
def System.renew (s : System) (id runner : String) (capped : Int) : System :=
  match s.liveLease id runner with
  | none => s
  | some lease =>
      match s.heldSlot lease.fleet lease.fencingToken with
      | none => s
      | some slot =>
          if s.now < capped ∧ s.now < lease.expiresAt ∧ s.now < slot.leaseExpiresAt then
            { s with
              slots := s.slots.insert lease.fleet { slot with leaseExpiresAt := stored capped }
              leases := Table.update (fun row => decide (row.id = lease.id))
                (fun row => { row with expiresAt := stored capped }) s.leases
              tenures := changeTenures lease.fleet lease.fencingToken (Tenure.until (stored capped))
                s.tenures }
          else s

def Lease.report (lease : Lease) : Lease := { lease with status := .reported }

def System.report (s : System) (id runner : String) (asked : Option Int) : System :=
  match s.liveLease id runner with
  | none => s
  | some lease =>
      match s.slots.get lease.fleet with
      | none => s
      | some slot =>
          if slot.fencingToken ≤ lease.fencingToken then
            ({ s with
              leases := Table.update (fun row => decide (row.id = lease.id)) Lease.report s.leases
              }.settleAdmission lease.admission lease.fencingToken).releaseThrough lease.runner
                lease.fleet lease.fencingToken asked
          else s

/-! ## Any number of runners -/

inductive Event where
  | admitted (id fleet : String)
  | claim (fleet runner : String) (reading : Reading)
  | issue (id fleet runner : String) (token checkedAt : Int) (deadline : Option Int)
  | release (fleet : String) (token : Int)
  | park (fleet admission : String) (token : Int) (waiting : Bool)
  | settle (fleet admission : String) (token : Int) (ended : Bool)
  | renew (id runner : String) (capped : Int)
  | report (id runner : String) (asked : Option Int)
  /-- The liveness sweep writes a silent runner's slot `behind` the clock. -/
  | sweep (fleet runner : String) (behind : Nat)
  /-- A beat names the holds its runner still has; this is none of them. -/
  | dropHold (fleet runner : String)
  | pass (micros : Nat)

/-- `expire_active_lease_slots.sql`, on one slot. -/
def System.sweep (s : System) (fleet runner : String) (behind : Nat) : System :=
  match s.slots.get fleet with
  | none => s
  | some slot =>
      if slot.lastRunner = some runner ∧ s.now - behind < slot.leaseExpiresAt ∧
          (s.leases.any fun lease => lease.fleet = fleet && lease.runner = runner &&
            lease.status = .active) = true then
        { s with
          slots := s.slots.insert fleet { slot with leaseExpiresAt := stored (s.now - behind) }
          tenures := changeTenures fleet slot.fencingToken (Tenure.until (stored (s.now - behind)))
            s.tenures }
      else s

/-- `clear_dropped_holds.sql`, on one slot. -/
def System.dropHold (s : System) (fleet runner : String) : System :=
  match s.slots.get fleet with
  | none => s
  | some slot =>
      if slot.lastRunner = some runner then
        { s with slots := s.slots.insert fleet { slot with holdExpiresAt := none } }
      else s

def System.step (s : System) : Event → System
  | .admitted id fleet =>
      if (s.admissions.any fun row => row.id = id) = true then s
      else { s with admissions := s.admissions ++ [⟨id, fleet, none, none, none⟩] }
  | .claim fleet runner reading =>
      match s.ledgerClaim fleet runner reading with
      | none => s
      | some (_, next) => next
  | .issue id fleet runner token checkedAt deadline =>
      s.issue id fleet runner token checkedAt deadline
  | .release fleet token => s.release fleet token
  | .park fleet admission token waiting => s.park fleet admission token waiting
  | .settle fleet admission token ended => s.settleTerminal fleet admission token ended
  | .renew id runner capped => s.renew id runner capped
  | .report id runner asked => s.report id runner asked
  | .sweep fleet runner behind => s.sweep fleet runner behind
  | .dropHold fleet runner => s.dropHold fleet runner
  | .pass micros => { s with now := s.now + micros }

/-! ## What every statement keeps -/

/-- A tenure that no clock from `now` on finds live. -/
def Tenure.ended (now : Int) (tenure : Tenure) : Prop :=
  tenure.released = true ∨ tenure.expiresAt < now

structure Tenured (now : Int) (slots : SortedMap String Slot) (tenures : List Tenure) : Prop where
  unique : (tenures.map fun tenure => (tenure.fleet, tenure.token)).Nodup
  past : ∀ tenure ∈ tenures, ∃ slot, slots.get tenure.fleet = some slot ∧
    tenure.token ≤ slot.fencingToken ∧
      (tenure.token < slot.fencingToken → tenure.ended now) ∧
        (tenure.token = slot.fencingToken →
          tenure.released = true ∨ tenure.expiresAt = slot.leaseExpiresAt)

/-- Tokens grow with every claim, and the slot names the last claim's runner or
nobody. -/
structure Ordered (slots : SortedMap String Slot) (wins : List Win) : Prop where
  ordered : wins.Pairwise fun later earlier =>
    later.acquired.fleet = earlier.acquired.fleet → earlier.acquired.fence < later.acquired.fence
  latest : ∀ win ∈ wins, ∃ slot, slots.get win.acquired.fleet = some slot ∧
    win.acquired.fence ≤ slot.fencingToken ∧
      (win.acquired.fence = slot.fencingToken →
        ∀ runner, slot.lastRunner = some runner → win.acquired.runner = runner)

/-- A hold to `deadline` was granted to a report of `runner`, who won every claim
from that report's own to the token `last`. -/
def Granted (wins : List Win) (grants : List Grant) (fleet runner : String) (deadline last : Int) :
    Prop :=
  ∃ grant ∈ grants, grant.fleet = fleet ∧ grant.runner = runner ∧ grant.expiresAt = deadline ∧
    grant.token ≤ last ∧ ∀ win ∈ wins, win.acquired.fleet = fleet →
      grant.token ≤ win.acquired.fence → win.acquired.fence ≤ last → win.acquired.runner = runner

structure Holding (slots : SortedMap String Slot) (wins : List Win) (grants : List Grant) :
    Prop where
  held : ∀ fleet slot deadline runner, slots.get fleet = some slot →
    slot.holdExpiresAt = some deadline → slot.lastRunner = some runner →
      Granted wins grants fleet runner deadline slot.fencingToken
  resumed : ∀ win ∈ wins, win.acquired.resumeHold = true → ∃ deadline, win.hold = some deadline ∧
    Granted wins grants win.acquired.fleet win.acquired.runner deadline (win.acquired.fence - 1)

structure Queued (admissions : List Admission) (wins : List Win)
    (settlements : List (String × Int)) : Prop where
  ids : (admissions.map Admission.id).Nodup
  stamped : ∀ row ∈ admissions, ∀ token, row.leaseFence = some token →
    ∃ win ∈ wins, win.acquired.admission = row.id ∧ win.acquired.fence = token
  latest : ∀ win ∈ wins, ∃ row ∈ admissions, row.id = win.acquired.admission ∧
    row.fleet = win.acquired.fleet ∧ ∃ token, row.leaseFence = some token ∧
      win.acquired.fence ≤ token
  settled : ∀ entry ∈ settlements, ∃ row ∈ admissions, row.id = entry.1 ∧
    row.settledAt.isSome = true ∧ row.leaseFence = some entry.2
  exact : ∀ row ∈ admissions, row.settledAt.isSome = true → row.id ∈ settlements.map Prod.fst
  once : (settlements.map Prod.fst).Nodup

def Leased (leases : List Lease) (wins : List Win) : Prop :=
  ∀ lease ∈ leases, ∃ win ∈ wins, win.acquired.fleet = lease.fleet ∧
    win.acquired.runner = lease.runner ∧ win.acquired.fence = lease.fencingToken ∧
      win.acquired.admission = lease.admission ∧ win.acquired.resumeHold = lease.resumes

def Win.claim (win : Win) : String × String × Int :=
  (win.acquired.fleet, win.acquired.runner, win.acquired.fence)

def Tenure.claim (tenure : Tenure) : String × String × Int :=
  (tenure.fleet, tenure.runner, tenure.token)

structure Sound (s : System) : Prop where
  paired : s.tenures.map Tenure.claim = s.wins.map Win.claim
  tenured : Tenured s.now s.slots s.tenures
  ordered : Ordered s.slots s.wins
  holding : Holding s.slots s.wins s.grants
  queued : Queued s.admissions s.wins s.settlements
  leased : Leased s.leases s.wins

theorem sound_start (now : Int) : Sound (System.start now) := by
  refine ⟨rfl, ⟨List.nodup_nil, ?_⟩, ⟨List.Pairwise.nil, ?_⟩, ⟨?_, ?_⟩,
    ⟨List.nodup_nil, ?_, ?_, ?_, ?_, List.nodup_nil⟩, ?_⟩ <;>
      simp [System.start, Leased]

/-! ### A slot written under its own token -/

section Slots

variable {now : Int} {slots : SortedMap String Slot} {tenures : List Tenure} {wins : List Win}
  {grants : List Grant} {fleet : String} {slot next : Slot}

theorem ended_later {later : Int} {tenure : Tenure} (passed : now ≤ later)
    (ended : tenure.ended now) : tenure.ended later := by
  rcases ended with released | lapsed
  · exact .inl released
  · exact .inr (by omega)

theorem tenured_later {later : Int} (tenured : Tenured now slots tenures) (passed : now ≤ later) :
    Tenured later slots tenures := by
  refine ⟨tenured.unique, ?_⟩
  intro tenure member
  obtain ⟨slot, found, bound, past, last⟩ := tenured.past tenure member
  exact ⟨slot, found, bound, fun older => ended_later passed (past older), last⟩

structure Retains (slot next : Slot) (change : Tenure → Tenure) : Prop where
  fleet : ∀ tenure, (change tenure).fleet = tenure.fleet
  runner : ∀ tenure, (change tenure).runner = tenure.runner
  token : ∀ tenure, (change tenure).token = tenure.token
  lasts : ∀ tenure, tenure.released = true ∨ tenure.expiresAt = slot.leaseExpiresAt →
    (change tenure).released = true ∨ (change tenure).expiresAt = next.leaseExpiresAt

theorem paired_slot {change : Tenure → Tenure} {token : Int}
    (paired : tenures.map Tenure.claim = wins.map Win.claim)
    (retains : Retains slot next change) :
    (changeTenures fleet token change tenures).map Tenure.claim = wins.map Win.claim := by
  rw [changeTenures, Table.column_update Tenure.claim _ change _ tenures]
  · exact paired
  · intro tenure
    rw [Tenure.claim, retains.fleet, retains.runner, retains.token]
    rfl

theorem tenured_slot {change : Tenure → Tenure} (tenured : Tenured now slots tenures)
    (found : slots.get fleet = some slot) (token : next.fencingToken = slot.fencingToken)
    (retains : Retains slot next change) :
    Tenured now (slots.insert fleet next)
      (changeTenures fleet slot.fencingToken change tenures) := by
  have keys := Table.column_update (fun tenure : Tenure => (tenure.fleet, tenure.token))
    (fun tenure => tenure.fleet = fleet && tenure.token = slot.fencingToken) change
      (fun tenure => by rw [retains.fleet, retains.token]) tenures
  refine ⟨by rw [changeTenures, keys]; exact tenured.unique, ?_⟩
  intro tenure member
  obtain ⟨old, inside, rfl⟩ := Table.mem_update.mp member
  obtain ⟨before, held, bound, past, last⟩ := tenured.past old inside
  by_cases own : old.fleet = fleet
  · have same : before = slot := Option.some.inj (held.symm.trans (own ▸ found))
    subst same
    by_cases current : old.token = before.fencingToken
    · rw [if_pos (by simp [own, current])]
      refine ⟨next, ?_, ?_, ?_, ?_⟩
      · rw [retains.fleet, own, SortedMap.get_insert, if_pos rfl]
      · rw [retains.token, token]
        exact bound
      · intro older
        rw [retains.token, token, current] at older
        exact absurd older (Int.lt_irrefl _)
      · intro _
        exact retains.lasts old (last current)
    · rw [if_neg (by simp [current])]
      refine ⟨next, ?_, by omega, ?_, ?_⟩
      · rw [own, SortedMap.get_insert, if_pos rfl]
      · intro _
        exact past (by omega)
      · intro same
        omega
  · rw [if_neg (by simp [own])]
    refine ⟨before, ?_, bound, past, last⟩
    rw [SortedMap.get_insert, if_neg own]
    exact held

theorem ordered_slot (ordered : Ordered slots wins) (found : slots.get fleet = some slot)
    (token : next.fencingToken = slot.fencingToken)
    (runner : next.lastRunner = slot.lastRunner ∨ next.lastRunner = none) :
    Ordered (slots.insert fleet next) wins := by
  refine ⟨ordered.ordered, ?_⟩
  intro win member
  obtain ⟨before, held, bound, last⟩ := ordered.latest win member
  by_cases own : win.acquired.fleet = fleet
  · have same : before = slot := Option.some.inj (held.symm.trans (own ▸ found))
    subst same
    refine ⟨next, ?_, by omega, ?_⟩
    · rw [own, SortedMap.get_insert, if_pos rfl]
    · intro current holder named
      apply last (by omega)
      rcases runner with kept | dropped
      · rw [← kept]
        exact named
      · rw [dropped] at named
        exact nomatch named
  · refine ⟨before, ?_, bound, last⟩
    rw [SortedMap.get_insert, if_neg own]
    exact held

theorem granted_more {more : List Grant} {runner : String} {deadline last : Int}
    (granted : Granted wins grants fleet runner deadline last)
    (kept : ∀ grant ∈ grants, grant ∈ more) : Granted wins more fleet runner deadline last := by
  obtain ⟨grant, member, own⟩ := granted
  exact ⟨grant, kept grant member, own⟩

theorem holding_slot {more : List Grant} (holding : Holding slots wins grants)
    (kept : ∀ grant ∈ grants, grant ∈ more)
    (hold : ∀ deadline runner, next.holdExpiresAt = some deadline →
      next.lastRunner = some runner → Granted wins more fleet runner deadline next.fencingToken) :
    Holding (slots.insert fleet next) wins more := by
  constructor
  · intro other slot deadline runner found held named
    rw [SortedMap.get_insert] at found
    split at found
    · rename_i same
      cases found
      rw [same]
      exact hold deadline runner held named
    · exact granted_more (holding.held other slot deadline runner found held named) kept
  · intro win member resumes
    obtain ⟨deadline, held, granted⟩ := holding.resumed win member resumes
    exact ⟨deadline, held, granted_more granted kept⟩

end Slots

/-! ### Each statement -/

section Statements

variable {s : System} {fleet runner : String} {token : Int}

theorem heldSlot_some {slot : Slot} (held : s.heldSlot fleet token = some slot) :
    s.slots.get fleet = some slot ∧ slot.fencingToken = token := by
  unfold System.heldSlot at held
  cases found : s.slots.get fleet with
  | none => simp [found] at held
  | some row =>
      simp only [found] at held
      split at held
      · rename_i same
        cases held
        exact ⟨rfl, same⟩
      · exact nomatch held

theorem retains_release (slot next : Slot) : Retains slot next Tenure.release := by
  refine ⟨fun _ => rfl, fun _ => rfl, fun _ => rfl, ?_⟩
  intro tenure _
  exact .inl rfl

theorem retains_until (slot : Slot) (deadline : Int) :
    Retains slot { slot with leaseExpiresAt := deadline } (Tenure.until deadline) := by
  refine ⟨fun _ => rfl, fun _ => rfl, fun _ => rfl, ?_⟩
  intro tenure _
  exact .inr rfl

theorem sound_release (sound : Sound s) : Sound (s.release fleet token) := by
  unfold System.release
  cases held : s.heldSlot fleet token with
  | none => exact sound
  | some slot =>
      obtain ⟨found, rfl⟩ := heldSlot_some held
      refine ⟨?_, ?_, ?_, ?_, sound.queued, sound.leased⟩
      · exact paired_slot sound.paired (retains_release slot slot)
      · exact tenured_slot sound.tenured found rfl (retains_release slot _)
      · refine ordered_slot sound.ordered found ?_ ?_
        · rfl
        · simp only
          split
          · exact .inl rfl
          · exact .inr rfl
      · apply holding_slot sound.holding fun _ member => member
        intro deadline holder hold named
        simp only at named
        split at named
        · exact sound.holding.held fleet slot deadline holder found hold named
        · exact nomatch named

theorem sound_until {slot : Slot} (deadline : Int) (sound : Sound s)
    (found : s.slots.get fleet = some slot) :
    Sound
      { s with
        slots := s.slots.insert fleet { slot with leaseExpiresAt := deadline }
        tenures := changeTenures fleet slot.fencingToken (Tenure.until deadline) s.tenures } := by
  refine ⟨?_, ?_, ?_, ?_, sound.queued, sound.leased⟩
  · exact paired_slot sound.paired (retains_until slot deadline)
  · exact tenured_slot sound.tenured found rfl (retains_until slot deadline)
  · exact ordered_slot sound.ordered found rfl (.inl rfl)
  · apply holding_slot sound.holding fun _ member => member
    intro hold holder held named
    exact sound.holding.held fleet slot hold holder found held named

theorem sound_sweep {behind : Nat} (sound : Sound s) : Sound (s.sweep fleet runner behind) := by
  unfold System.sweep
  cases found : s.slots.get fleet with
  | none => exact sound
  | some slot =>
      simp only
      split
      · exact sound_until _ sound found
      · exact sound

theorem sound_dropHold (sound : Sound s) : Sound (s.dropHold fleet runner) := by
  unfold System.dropHold
  cases found : s.slots.get fleet with
  | none => exact sound
  | some slot =>
      simp only
      split
      · refine ⟨sound.paired, ?_, ?_, ?_, sound.queued, sound.leased⟩
        · have retains : Retains slot { slot with holdExpiresAt := none } fun tenure => tenure :=
            ⟨fun _ => rfl, fun _ => rfl, fun _ => rfl, fun _ lasts => lasts⟩
          have kept := tenured_slot sound.tenured found
            (show ({ slot with holdExpiresAt := none } : Slot).fencingToken = slot.fencingToken
              from rfl) retains
          have same : changeTenures fleet slot.fencingToken (fun tenure => tenure) s.tenures =
              s.tenures := by
            unfold changeTenures Table.update
            simp
          rw [same] at kept
          exact kept
        · exact ordered_slot sound.ordered found rfl (.inl rfl)
        · apply holding_slot sound.holding fun _ member => member
          intro hold holder held _
          exact nomatch held
      · exact sound

theorem sound_leases {leases : List Lease} (sound : Sound s)
    (kept : ∀ lease ∈ leases, (∃ old ∈ s.leases, old.fleet = lease.fleet ∧
      old.runner = lease.runner ∧ old.fencingToken = lease.fencingToken ∧
        old.admission = lease.admission ∧ old.resumes = lease.resumes) ∨
      ∃ win ∈ s.wins, win.acquired.fleet = lease.fleet ∧ win.acquired.runner = lease.runner ∧
        win.acquired.fence = lease.fencingToken ∧ win.acquired.admission = lease.admission ∧
          win.acquired.resumeHold = lease.resumes) :
    Sound { s with leases := leases } := by
  refine { sound with leased := ?_ }
  intro lease member
  rcases kept lease member with ⟨old, held, fleet, runner, fence, admission, resumes⟩ | won
  · obtain ⟨win, won, same⟩ := sound.leased old held
    refine ⟨win, won, ?_⟩
    rw [← fleet, ← runner, ← fence, ← admission, ← resumes]
    exact same
  · exact won

theorem sound_issue {id : String} {checkedAt : Int} {deadline : Option Int} (sound : Sound s) :
    Sound (s.issue id fleet runner token checkedAt deadline) := by
  unfold System.issue
  split
  · exact sound
  · rename_i win chosen
    cases held : s.heldSlot fleet token with
    | none => exact sound
    | some slot =>
        simp only
        split
        · obtain ⟨found, rfl⟩ := heldSlot_some held
          have own := List.find?_some chosen
          simp only [Bool.and_eq_true, decide_eq_true_eq] at own
          have won := List.mem_of_find?_eq_some chosen
          apply sound_leases (sound_until _ sound found)
          intro lease member
          rcases List.mem_append.mp member with old | new
          · exact .inl ⟨lease, old, rfl, rfl, rfl, rfl, rfl⟩
          · rw [List.mem_singleton] at new
            subst new
            exact .inr ⟨win, won, own.1.1, own.2, own.1.2, rfl, rfl⟩
        · exact sound

theorem liveLease_some {id : String} {lease : Lease} (live : s.liveLease id runner = some lease) :
    lease ∈ s.leases ∧ lease.id = id ∧ lease.runner = runner ∧ ∃ row ∈ s.admissions,
      row.id = lease.admission ∧ row.leaseFence = some lease.fencingToken ∧
        row.settledAt = none := by
  unfold System.liveLease at live
  split at live
  · exact nomatch live
  · rename_i chosen found
    split at live
    · rename_i queued
      cases live
      have own := List.find?_some found
      simp only [Bool.and_eq_true, decide_eq_true_eq] at own
      obtain ⟨row, member, holds⟩ := List.any_eq_true.mp queued
      simp only [Bool.and_eq_true, decide_eq_true_eq, Option.isNone_iff_eq_none] at holds
      exact ⟨List.mem_of_find?_eq_some found, own.1.1, own.1.2, row, member, holds.1.1.1,
        holds.1.2, holds.2⟩
    · exact nomatch live

theorem sound_renew {id : String} {capped : Int} (sound : Sound s) :
    Sound (s.renew id runner capped) := by
  unfold System.renew
  cases live : s.liveLease id runner with
  | none => exact sound
  | some lease =>
      simp only
      cases held : s.heldSlot lease.fleet lease.fencingToken with
      | none => exact sound
      | some slot =>
          simp only
          split
          · obtain ⟨found, token⟩ := heldSlot_some held
            rw [← token]
            apply sound_leases (sound_until _ sound found)
            intro row member
            obtain ⟨old, inside, rfl⟩ := Table.mem_update.mp member
            refine .inl ⟨old, inside, ?_⟩
            split
            · exact ⟨rfl, rfl, rfl, rfl, rfl⟩
            · exact ⟨rfl, rfl, rfl, rfl, rfl⟩
          · exact sound

theorem queued_update {admissions : List Admission} {wins : List Win}
    {settlements : List (String × Int)} {here : Admission → Bool}
    {change : Admission → Admission} (queued : Queued admissions wins settlements)
    (kept : ∀ row, (change row).id = row.id ∧ (change row).fleet = row.fleet ∧
      (change row).leaseFence = row.leaseFence ∧ (change row).settledAt = row.settledAt) :
    Queued (Table.update here change admissions) wins settlements := by
  have same : ∀ row ∈ Table.update here change admissions, ∃ old ∈ admissions,
      old.id = row.id ∧ old.leaseFence = row.leaseFence ∧ old.settledAt = row.settledAt := by
    intro row member
    obtain ⟨old, inside, rfl⟩ := Table.mem_update.mp member
    refine ⟨old, inside, ?_⟩
    split
    · exact ⟨(kept old).1.symm, (kept old).2.2.1.symm, (kept old).2.2.2.symm⟩
    · exact ⟨rfl, rfl, rfl⟩
  have after : ∀ old ∈ admissions, ∃ row ∈ Table.update here change admissions,
      row.id = old.id ∧ row.fleet = old.fleet ∧ row.leaseFence = old.leaseFence ∧
        row.settledAt = old.settledAt := by
    intro old inside
    refine ⟨_, Table.mem_update.mpr ⟨old, inside, rfl⟩, ?_⟩
    split
    · exact kept old
    · exact ⟨rfl, rfl, rfl, rfl⟩
  refine ⟨?_, ?_, ?_, ?_, ?_, queued.once⟩
  · rw [Table.column_update Admission.id here change (fun row => (kept row).1) admissions]
    exact queued.ids
  · intro row member token fence
    obtain ⟨old, inside, id, own, _⟩ := same row member
    obtain ⟨win, won, admission, exact_token⟩ := queued.stamped old inside token (own.trans fence)
    exact ⟨win, won, admission.trans id, exact_token⟩
  · intro win won
    obtain ⟨old, inside, id, fleet, token, fence, bound⟩ := queued.latest win won
    obtain ⟨row, member, same_id, same_fleet, same_fence, _⟩ := after old inside
    exact ⟨row, member, same_id.trans id, same_fleet.trans fleet, token, same_fence.trans fence,
      bound⟩
  · intro entry listed
    obtain ⟨old, inside, id, settled, fence⟩ := queued.settled entry listed
    obtain ⟨row, member, same_id, _, same_fence, same_settled⟩ := after old inside
    exact ⟨row, member, same_id.trans id, by rw [same_settled]; exact settled,
      same_fence.trans fence⟩
  · intro row member settled
    obtain ⟨old, inside, id, _, own⟩ := same row member
    rw [← id]
    exact queued.exact old inside (by rw [own]; exact settled)

theorem lockAdmission_some {admission : String} {row : Admission}
    (locked : s.lockAdmission fleet admission token = some row) :
    row ∈ s.admissions ∧ row.leaseFence = some token ∧ row.settledAt = none := by
  unfold System.lockAdmission at locked
  split at locked
  · exact nomatch locked
  · have own := List.find?_some locked
    simp only [Bool.and_eq_true, decide_eq_true_eq, Option.isNone_iff_eq_none] at own
    exact ⟨List.mem_of_find?_eq_some locked, own.1.2, own.2⟩

theorem queued_settle {now : Int} {admissions : List Admission} {wins : List Win}
    {settlements : List (String × Int)} {row : Admission}
    (queued : Queued admissions wins settlements) (held : row ∈ admissions)
    (fence : row.leaseFence = some token) (open_row : row.settledAt = none) :
    Queued
      (Table.update (fun other => decide (other.id = row.id)) (Admission.settle now) admissions)
      wins ((row.id, token) :: settlements) := by
  have unsettled : row.id ∉ settlements.map Prod.fst := by
    intro listed
    obtain ⟨entry, member, id⟩ := List.mem_map.mp listed
    obtain ⟨other, inside, same, settled, _⟩ := queued.settled entry member
    have equal := List.inj_on_of_nodup_map queued.ids inside held (same.trans id)
    rw [equal, open_row] at settled
    exact nomatch settled
  refine ⟨?_, ?_, ?_, ?_, ?_, List.nodup_cons.mpr ⟨unsettled, queued.once⟩⟩
  · rw [Table.column_update Admission.id (fun other => decide (other.id = row.id))
      (Admission.settle now) (fun _ => rfl) admissions]
    exact queued.ids
  · intro other member token fence
    obtain ⟨old, inside, rfl⟩ := Table.mem_update.mp member
    have stamped := queued.stamped old inside token
    split at fence
    · rw [if_pos (by assumption)]
      exact stamped fence
    · rw [if_neg (by assumption)]
      exact stamped fence
  · intro win won
    obtain ⟨old, inside, id, fleet, token, fence, bound⟩ := queued.latest win won
    refine ⟨_, Table.mem_update.mpr ⟨old, inside, rfl⟩, ?_⟩
    split
    · exact ⟨id, fleet, token, fence, bound⟩
    · exact ⟨id, fleet, token, fence, bound⟩
  · intro entry member
    rcases List.mem_cons.mp member with rfl | old_entry
    · refine ⟨_, Table.mem_update.mpr ⟨row, held, rfl⟩, ?_⟩
      rw [if_pos (decide_eq_true rfl)]
      exact ⟨rfl, rfl, fence⟩
    · obtain ⟨old, inside, id, settled, own⟩ := queued.settled entry old_entry
      refine ⟨_, Table.mem_update.mpr ⟨old, inside, rfl⟩, ?_⟩
      split
      · exact ⟨id, rfl, own⟩
      · exact ⟨id, settled, own⟩
  · intro other member settled
    obtain ⟨old, inside, rfl⟩ := Table.mem_update.mp member
    rw [List.map_cons, List.mem_cons]
    by_cases same : old.id = row.id
    · rw [if_pos (decide_eq_true same)]
      exact .inl same
    · rw [if_neg (by simpa using same)] at settled ⊢
      exact .inr (queued.exact old inside settled)

theorem sound_settleAdmission {row : Admission} (sound : Sound s) (held : row ∈ s.admissions)
    (fence : row.leaseFence = some token) (open_row : row.settledAt = none) :
    Sound (s.settleAdmission row.id token) :=
  { sound with queued := queued_settle sound.queued held fence open_row }

theorem sound_settleTerminal {admission : String} {ended : Bool} (sound : Sound s) :
    Sound (s.settleTerminal fleet admission token ended) := by
  unfold System.settleTerminal
  cases locked : s.lockAdmission fleet admission token with
  | none => exact sound
  | some row =>
      simp only
      split
      · obtain ⟨held, fence, open_row⟩ := lockAdmission_some locked
        exact sound_settleAdmission sound held fence open_row
      · exact sound

theorem sound_park {admission : String} {waiting : Bool} (sound : Sound s) :
    Sound (s.park fleet admission token waiting) := by
  unfold System.park
  cases locked : s.lockAdmission fleet admission token with
  | none => exact sound
  | some row =>
      apply sound_release
      refine { sound with queued := ?_ }
      simp only
      split
      · exact queued_update sound.queued fun _ => ⟨rfl, rfl, rfl, rfl⟩
      · exact sound.queued

theorem sound_releaseThrough {asked : Option Int} (sound : Sound s)
    (won : ∃ win ∈ s.wins, win.acquired.fleet = fleet ∧ win.acquired.runner = runner ∧
      win.acquired.fence = token) :
    Sound (s.releaseThrough runner fleet token asked) := by
  unfold System.releaseThrough
  cases held : s.heldSlot fleet token with
  | none => exact sound
  | some slot =>
      obtain ⟨found, rfl⟩ := heldSlot_some held
      refine ⟨?_, ?_, ?_, ?_, sound.queued, sound.leased⟩
      · exact paired_slot sound.paired (retains_release slot slot)
      · exact tenured_slot sound.tenured found rfl (retains_release slot _)
      · exact ordered_slot sound.ordered found rfl (.inl rfl)
      · apply holding_slot sound.holding
        · intro grant member
          exact List.mem_append_right _ member
        · intro deadline holder hold named
          simp only at hold named
          rw [hold]
          -- the reporter won the slot's token, and the slot names no other runner
          have last : ∀ win ∈ s.wins, win.acquired.fleet = fleet →
              win.acquired.fence = slot.fencingToken → win.acquired.runner = holder := by
            intro win member own current
            obtain ⟨before, at_fleet, _, names⟩ := sound.ordered.latest win member
            have same : before = slot := Option.some.inj (at_fleet.symm.trans (own ▸ found))
            exact names (by rw [same]; exact current) holder (by rw [same]; exact named)
          obtain ⟨win, member, own, own_runner, current⟩ := won
          have reporter : runner = holder := own_runner.symm.trans (last win member own current)
          refine ⟨⟨fleet, runner, slot.fencingToken, deadline⟩, List.mem_cons_self, rfl, reporter,
            rfl, Int.le_refl _, ?_⟩
          intro other inside same_fleet low high
          exact last other inside same_fleet (Int.le_antisymm high low)

theorem sound_report {id : String} {asked : Option Int} (sound : Sound s) :
    Sound (s.report id runner asked) := by
  unfold System.report
  cases live : s.liveLease id runner with
  | none => exact sound
  | some lease =>
      simp only
      cases found : s.slots.get lease.fleet with
      | none => exact sound
      | some slot =>
          simp only
          split
          · obtain ⟨held, _, _, row, queued, same, fence, open_row⟩ := liveLease_some live
            obtain ⟨win, won, fleet, own, token, _⟩ := sound.leased lease held
            have reported : Sound
                { s with
                  leases := Table.update (fun row => decide (row.id = lease.id)) Lease.report
                    s.leases } := by
              apply sound_leases sound
              intro other member
              obtain ⟨old, inside, rfl⟩ := Table.mem_update.mp member
              refine .inl ⟨old, inside, ?_⟩
              split
              · exact ⟨rfl, rfl, rfl, rfl, rfl⟩
              · exact ⟨rfl, rfl, rfl, rfl, rfl⟩
            apply sound_releaseThrough
            · rw [← same]
              exact sound_settleAdmission reported queued fence open_row
            · exact ⟨win, won, fleet, own, token⟩
          · exact sound

theorem sound_admit {id : String} (sound : Sound s)
    (fresh : ∀ row ∈ s.admissions, row.id ≠ id) :
    Sound { s with admissions := s.admissions ++ [⟨id, fleet, none, none, none⟩] } := by
  have queued := sound.queued
  refine { sound with queued := ⟨?_, ?_, ?_, ?_, ?_, queued.once⟩ }
  · rw [List.map_append]
    apply List.Nodup.append queued.ids (List.nodup_singleton _)
    intro other first second
    obtain ⟨row, member, rfl⟩ := List.mem_map.mp first
    exact fresh row member (List.mem_singleton.mp second)
  · intro row member token fence
    rcases List.mem_append.mp member with old | new
    · exact queued.stamped row old token fence
    · rw [List.mem_singleton] at new
      rw [new] at fence
      exact nomatch fence
  · intro win won
    obtain ⟨row, member, own⟩ := queued.latest win won
    exact ⟨row, List.mem_append_left _ member, own⟩
  · intro entry listed
    obtain ⟨row, member, own⟩ := queued.settled entry listed
    exact ⟨row, List.mem_append_left _ member, own⟩
  · intro row member settled
    rcases List.mem_append.mp member with old | new
    · exact queued.exact row old settled
    · rw [List.mem_singleton] at new
      rw [new] at settled
      exact nomatch settled

theorem sound_pass {later : Int} (sound : Sound s) (passed : s.now ≤ later) :
    Sound { s with now := later } :=
  { sound with tenured := tenured_later sound.tenured passed }

end Statements

/-! ### A claim -/

section Claims

variable {s next : System} {fleet runner : String} {reading : Reading} {acquired : Acquired}

structure Claimed (now : Int) (runner : String) (before : Option Slot) (slot : Slot) : Prop where
  named : slot.lastRunner = some runner
  lapsed : ∀ old, before = some old → old.leaseExpiresAt < now
  token : ∀ old, before = some old → slot.fencingToken = old.fencingToken + 1
  hold : ∀ deadline, slot.holdExpiresAt = some deadline → ∃ old, before = some old ∧
    old.holdExpiresAt = some deadline ∧ old.lastRunner = some runner

theorem claimSlot_some {now : Int} {before : Option Slot} {slot : Slot}
    (claimed : claimSlot now runner reading before = some slot) :
    Claimed now runner before slot := by
  cases before with
  | none =>
      cases claimed
      refine ⟨rfl, ?_, ?_, ?_⟩
      · intro old found
        exact nomatch found
      · intro old found
        exact nomatch found
      · intro deadline held
        exact nomatch held
  | some old =>
      simp only [claimSlot] at claimed
      split at claimed
      · rename_i free
        cases claimed
        refine ⟨rfl, ?_, ?_, ?_⟩
        · intro other same
          cases same
          exact free.1
        · intro other same
          cases same
          rfl
        · intro deadline held
          simp only at held
          split at held
          · rename_i holder
            exact ⟨old, rfl, held, holder⟩
          · exact nomatch held
      · exact nomatch claimed

theorem head_some {admission : Admission} (chosen : s.head fleet reading = some admission) :
    admission ∈ s.admissions ∧ admission.fleet = fleet ∧ admission.settledAt = none := by
  unfold System.head at chosen
  split at chosen
  · exact nomatch chosen
  · split at chosen
    · exact nomatch chosen
    · rename_i row found
      split at chosen
      · rename_i leasable
        cases chosen
        exact ⟨List.mem_of_find?_eq_some found, leasable.1, leasable.2.1⟩
      · exact nomatch chosen

theorem tenured_claim {slot : Slot} (tenured : Tenured s.now s.slots s.tenures)
    (claimed : Claimed s.now runner (s.slots.get fleet) slot) :
    Tenured s.now (s.slots.insert fleet slot)
      (⟨fleet, runner, slot.fencingToken, slot.leaseExpiresAt, false⟩ :: s.tenures) := by
  constructor
  · rw [List.map_cons, List.nodup_cons]
    refine ⟨?_, tenured.unique⟩
    intro listed
    obtain ⟨tenure, member, same⟩ := List.mem_map.mp listed
    obtain ⟨old, found, bound, _⟩ := tenured.past tenure member
    simp only [Prod.mk.injEq] at same
    rw [same.1] at found
    have token := claimed.token old found
    omega
  · intro tenure member
    rcases List.mem_cons.mp member with rfl | older
    · refine ⟨slot, ?_, Int.le_refl _, ?_, fun _ => .inr rfl⟩
      · simp only [SortedMap.get_insert, if_true]
      · intro less
        exact absurd less (Int.lt_irrefl _)
    · obtain ⟨old, found, bound, past, last⟩ := tenured.past tenure older
      by_cases own : tenure.fleet = fleet
      · rw [own] at found
        have token := claimed.token old found
        have lapsed := claimed.lapsed old found
        refine ⟨slot, ?_, by omega, ?_, fun same => by omega⟩
        · rw [own, SortedMap.get_insert, if_pos rfl]
        · intro _
          by_cases current : tenure.token = old.fencingToken
          · rcases last current with released | lasts
            · exact .inl released
            · exact .inr (by omega)
          · exact past (by omega)
      · refine ⟨old, ?_, bound, past, last⟩
        rw [SortedMap.get_insert, if_neg own]
        exact found

theorem ordered_claim {slot : Slot} {win : Win} (ordered : Ordered s.slots s.wins)
    (claimed : Claimed s.now runner (s.slots.get fleet) slot)
    (own_fleet : win.acquired.fleet = fleet) (own_runner : win.acquired.runner = runner)
    (own_fence : win.acquired.fence = slot.fencingToken) :
    Ordered (s.slots.insert fleet slot) (win :: s.wins) := by
  constructor
  · refine List.pairwise_cons.mpr ⟨?_, ordered.ordered⟩
    intro earlier member same
    obtain ⟨old, found, bound, _⟩ := ordered.latest earlier member
    rw [← same, own_fleet] at found
    have token := claimed.token old found
    omega
  · intro other member
    rcases List.mem_cons.mp member with rfl | older
    · refine ⟨slot, ?_, by omega, ?_⟩
      · rw [own_fleet, SortedMap.get_insert, if_pos rfl]
      · intro _ holder named
        rw [claimed.named] at named
        exact own_runner.trans (Option.some.inj named)
    · obtain ⟨old, found, bound, last⟩ := ordered.latest other older
      by_cases own : other.acquired.fleet = fleet
      · rw [own] at found
        have token := claimed.token old found
        refine ⟨slot, ?_, by omega, fun same => by omega⟩
        rw [own, SortedMap.get_insert, if_pos rfl]
      · refine ⟨old, ?_, bound, last⟩
        rw [SortedMap.get_insert, if_neg own]
        exact found

theorem granted_win {wins : List Win} {grants : List Grant} {win : Win} {deadline last : Int}
    (granted : Granted wins grants fleet runner deadline last)
    (fits : win.acquired.fleet = fleet → last < win.acquired.fence) :
    Granted (win :: wins) grants fleet runner deadline last := by
  obtain ⟨grant, member, own_fleet, own_runner, until_at, low, since⟩ := granted
  refine ⟨grant, member, own_fleet, own_runner, until_at, low, ?_⟩
  intro other inside same first second
  rcases List.mem_cons.mp inside with rfl | older
  · have above := fits same
    omega
  · exact since other older same first second

theorem holding_claim {slot : Slot} {win : Win} (holding : Holding s.slots s.wins s.grants)
    (ordered : Ordered s.slots s.wins)
    (claimed : Claimed s.now runner (s.slots.get fleet) slot)
    (own_fleet : win.acquired.fleet = fleet) (own_runner : win.acquired.runner = runner)
    (own_fence : win.acquired.fence = slot.fencingToken)
    (own_hold : win.hold = (s.slots.get fleet).bind Slot.holdExpiresAt)
    (resumes : win.acquired.resumeHold = true → ∃ old deadline, s.slots.get fleet = some old ∧
      old.holdExpiresAt = some deadline ∧ old.lastRunner = some runner) :
    Holding (s.slots.insert fleet slot) (win :: s.wins) s.grants := by
  constructor
  · intro other row deadline holder found held named
    rw [SortedMap.get_insert] at found
    split at found
    · rename_i same
      cases found
      subst same
      rw [claimed.named] at named
      cases named
      obtain ⟨old, before, old_hold, old_runner⟩ := claimed.hold deadline held
      obtain ⟨grant, member, grant_fleet, grant_runner, until_at, low, since⟩ :=
        holding.held other old deadline runner before old_hold old_runner
      have token := claimed.token old before
      refine ⟨grant, member, grant_fleet, grant_runner, until_at, by omega, ?_⟩
      intro one inside same_fleet first second
      rcases List.mem_cons.mp inside with rfl | older
      · exact own_runner
      · obtain ⟨again, there, bound, _⟩ := ordered.latest one older
        rw [same_fleet, before] at there
        cases there
        exact since one older same_fleet first bound
    · rename_i apart
      apply granted_win (holding.held other row deadline holder found held named)
      intro same
      exact absurd (same.symm.trans own_fleet) apart
  · intro one inside resumed
    rcases List.mem_cons.mp inside with rfl | older
    · obtain ⟨old, deadline, before, old_hold, old_runner⟩ := resumes resumed
      refine ⟨deadline, by rw [own_hold, before]; exact old_hold, ?_⟩
      have granted := holding.held fleet old deadline runner before old_hold old_runner
      have token := claimed.token old before
      rw [own_fleet, own_runner, own_fence, token, Int.add_sub_cancel]
      apply granted_win granted
      intro _
      omega
    · obtain ⟨deadline, held, granted⟩ := holding.resumed one older resumed
      refine ⟨deadline, held, granted_win granted ?_⟩
      intro same
      obtain ⟨old, found, bound, _⟩ := ordered.latest one older
      rw [← same, own_fleet] at found
      have token := claimed.token old found
      omega

theorem queued_claim (win : Win) {admission : Admission}
    (queued : Queued s.admissions s.wins s.settlements) (held : admission ∈ s.admissions)
    (open_row : admission.settledAt = none) (own_fleet : win.acquired.fleet = admission.fleet)
    (own : win.acquired.admission = admission.id)
    (newest : ∀ other ∈ s.wins, other.acquired.fleet = admission.fleet →
      other.acquired.fence < win.acquired.fence) :
    Queued
      (Table.update (fun other => decide (other.id = admission.id))
        (Admission.stamp win.acquired.fence) s.admissions)
      (win :: s.wins) s.settlements := by
  have only : ∀ other ∈ s.admissions, other.id = admission.id → other = admission :=
    fun other inside same => List.inj_on_of_nodup_map queued.ids inside held same
  refine ⟨?_, ?_, ?_, ?_, ?_, queued.once⟩
  · rw [Table.column_update Admission.id (fun other => decide (other.id = admission.id))
      (Admission.stamp win.acquired.fence) (fun _ => rfl) s.admissions]
    exact queued.ids
  · intro row member token fence
    obtain ⟨old, inside, rfl⟩ := Table.mem_update.mp member
    by_cases same : old.id = admission.id
    · rw [if_pos (decide_eq_true same)] at fence ⊢
      exact ⟨win, List.mem_cons_self, own.trans same.symm, Option.some.inj fence⟩
    · rw [if_neg (by simpa using same)] at fence ⊢
      obtain ⟨before, won, stamped⟩ := queued.stamped old inside token fence
      exact ⟨before, List.mem_cons_of_mem _ won, stamped⟩
  · intro other won
    rcases List.mem_cons.mp won with rfl | older
    · refine ⟨_, Table.mem_update.mpr ⟨admission, held, rfl⟩, ?_⟩
      rw [if_pos (decide_eq_true rfl)]
      exact ⟨own.symm, own_fleet.symm, _, rfl, Int.le_refl _⟩
    · obtain ⟨row, inside, id, fleet, token, fence, bound⟩ := queued.latest other older
      refine ⟨_, Table.mem_update.mpr ⟨row, inside, rfl⟩, ?_⟩
      by_cases same : row.id = admission.id
      · rw [if_pos (decide_eq_true same)]
        have equal := only row inside same
        refine ⟨id, fleet, _, rfl, ?_⟩
        exact Int.le_of_lt (newest other older (by rw [← fleet, equal]))
      · rw [if_neg (by simpa using same)]
        exact ⟨id, fleet, token, fence, bound⟩
  · intro entry listed
    obtain ⟨row, inside, id, settled, fence⟩ := queued.settled entry listed
    have apart : row.id ≠ admission.id := by
      intro same
      rw [only row inside same, open_row] at settled
      exact nomatch settled
    refine ⟨row, Table.mem_update.mpr ⟨row, inside, ?_⟩, id, settled, fence⟩
    rw [if_neg (by simpa using apart)]
  · intro row member settled
    obtain ⟨old, inside, rfl⟩ := Table.mem_update.mp member
    by_cases same : old.id = admission.id
    · rw [if_pos (decide_eq_true same)] at settled ⊢
      exact queued.exact old inside settled
    · rw [if_neg (by simpa using same)] at settled ⊢
      exact queued.exact old inside settled

theorem sound_claim (sound : Sound s)
    (claimed : s.ledgerClaim fleet runner reading = some (acquired, next)) : Sound next := by
  unfold System.ledgerClaim at claimed
  cases won : claimSlot s.now runner reading (s.slots.get fleet) with
  | none => simp [won] at claimed
  | some slot =>
      cases chosen : s.head fleet reading with
      | none => simp [won, chosen] at claimed
      | some admission =>
          simp only [won, chosen, Option.some.injEq, Prod.mk.injEq] at claimed
          obtain ⟨own, rfl⟩ := claimed
          have spec := claimSlot_some won
          obtain ⟨held, own_fleet, open_row⟩ := head_some chosen
          have waited : s.now ≤ s.now + (reading.waited : Int) := by omega
          rw [own]
          have fence : acquired.fence = slot.fencingToken := by rw [← own]
          have fleet_eq : acquired.fleet = fleet := by rw [← own]
          have runner_eq : acquired.runner = runner := by rw [← own]
          refine ⟨?_, ?_, ?_, ?_, ?_, ?_⟩
          · rw [List.map_cons, List.map_cons, sound.paired]
            simp only [Tenure.claim, Win.claim, fence, fleet_eq, runner_eq]
          · exact tenured_later (tenured_claim sound.tenured spec) waited
          · exact ordered_claim sound.ordered spec fleet_eq runner_eq fence
          · refine holding_claim sound.holding sound.ordered spec fleet_eq runner_eq fence rfl ?_
            intro resumes
            rw [← own] at resumes
            simp only [Bool.and_eq_true, decide_eq_true_eq, Option.any_eq_true,
              Option.bind_eq_some_iff] at resumes
            obtain ⟨⟨⟨deadline, ⟨old, found, hold⟩, _⟩, again, same, last⟩, _⟩ := resumes
            cases found.symm.trans same
            exact ⟨old, deadline, found, hold, last⟩
          · rw [← fence]
            refine queued_claim ⟨acquired, (s.slots.get fleet).bind Slot.holdExpiresAt⟩ sound.queued
              held open_row ?_ ?_ ?_
            · exact fleet_eq.trans own_fleet.symm
            · rw [← own]
            · intro other member same
              obtain ⟨old, found, bound, _⟩ := sound.ordered.latest other member
              rw [same, own_fleet] at found
              have token := spec.token old found
              change other.acquired.fence < acquired.fence
              omega
          · intro lease member
            obtain ⟨old, inside, rfl⟩ := Table.mem_update.mp member
            obtain ⟨win, won, same⟩ := sound.leased old inside
            refine ⟨win, List.mem_cons_of_mem _ won, ?_⟩
            split
            · exact same
            · exact same

end Claims

/-! ## Every run -/

theorem sound_step {s : System} (event : Event) (sound : Sound s) : Sound (s.step event) := by
  cases event with
  | admitted id fleet =>
      simp only [System.step]
      split
      · exact sound
      · rename_i fresh
        apply sound_admit sound
        simpa using fresh
  | claim fleet runner reading =>
      simp only [System.step]
      cases claimed : s.ledgerClaim fleet runner reading with
      | none => exact sound
      | some answer => exact sound_claim sound claimed
  | issue id fleet runner token checkedAt deadline => exact sound_issue sound
  | release fleet token => exact sound_release sound
  | park fleet admission token waiting => exact sound_park sound
  | settle fleet admission token ended => exact sound_settleTerminal sound
  | renew id runner capped => exact sound_renew sound
  | report id runner asked => exact sound_report sound
  | sweep fleet runner behind => exact sound_sweep sound
  | dropHold fleet runner => exact sound_dropHold sound
  | pass micros => exact sound_pass sound (by omega)

/-- A claim a clock at `now` finds neither released nor expired. -/
def Tenure.live (now : Int) (tenure : Tenure) : Prop :=
  tenure.released = false ∧ now ≤ tenure.expiresAt

def System.older (s : System) (fleet : String) (token : Int) : Prop :=
  ∃ slot, s.slots.get fleet = some slot ∧ token < slot.fencingToken

/-- A statement that carries a token its slot has moved past. -/
def System.stale (s : System) : Event → Prop
  | .issue _ fleet _ token _ _ => s.older fleet token
  | .release fleet token => s.older fleet token
  | .park fleet _ token _ => s.older fleet token
  | .settle fleet _ token _ => s.older fleet token
  | .renew id _ _ => ∀ lease ∈ s.leases, lease.id = id → s.older lease.fleet lease.fencingToken
  | .report id _ _ => ∀ lease ∈ s.leases, lease.id = id → s.older lease.fleet lease.fencingToken
  | _ => False

theorem heldSlot_older {s : System} {fleet : String} {token : Int} (older : s.older fleet token) :
    s.heldSlot fleet token = none := by
  obtain ⟨slot, found, below⟩ := older
  simp only [System.heldSlot, found]
  rw [if_neg (by omega)]

theorem step_stale {s : System} {event : Event} (stale : s.stale event) : s.step event = s := by
  cases event with
  | issue id fleet runner token checkedAt deadline =>
      simp only [System.step, System.issue, heldSlot_older stale]
      split
      · rfl
      · rfl
  | release fleet token =>
      simp only [System.step, System.release, heldSlot_older stale]
  | park fleet admission token waiting =>
      simp only [System.step, System.park, System.lockAdmission, heldSlot_older stale]
  | settle fleet admission token ended =>
      simp only [System.step, System.settleTerminal, System.lockAdmission, heldSlot_older stale]
  | renew id runner capped =>
      simp only [System.step, System.renew]
      cases live : s.liveLease id runner with
      | none => rfl
      | some lease =>
          obtain ⟨held, same, _⟩ := liveLease_some live
          simp only [heldSlot_older (stale lease held same)]
  | report id runner asked =>
      simp only [System.step, System.report]
      cases live : s.liveLease id runner with
      | none => rfl
      | some lease =>
          obtain ⟨held, same, _⟩ := liveLease_some live
          obtain ⟨slot, found, below⟩ := stale lease held same
          simp only [found]
          rw [if_neg (by omega)]
  | admitted id fleet => exact stale.elim
  | claim fleet runner reading => exact stale.elim
  | sweep fleet runner behind => exact stale.elim
  | dropHold fleet runner => exact stale.elim
  | pass micros => exact stale.elim

structure Fenced (s : System) : Prop where
  increasing : s.wins.Pairwise fun later earlier =>
    later.acquired.fleet = earlier.acquired.fleet → earlier.acquired.fence < later.acquired.fence
  claims : s.tenures.map Tenure.claim = s.wins.map Win.claim
  holder : ∀ first ∈ s.tenures, ∀ second ∈ s.tenures, first.fleet = second.fleet →
    first.live s.now → second.live s.now → first = second
  stale : ∀ event, s.stale event → s.step event = s
  headless : ∀ fleet runner reading, s.head fleet reading = none →
    s.step (.claim fleet runner reading) = s
  settledOnce : (s.settlements.map Prod.fst).Nodup
  settledAll : ∀ row ∈ s.admissions, row.settledAt.isSome = true →
    row.id ∈ s.settlements.map Prod.fst
  settledLatest : ∀ entry ∈ s.settlements, ∃ win ∈ s.wins, win.acquired.admission = entry.1 ∧
    win.acquired.fence = entry.2 ∧ ∀ other ∈ s.wins, other.acquired.admission = entry.1 →
      other.acquired.fence ≤ entry.2
  resumed : ∀ lease ∈ s.leases, lease.resumes = true → ∃ grant ∈ s.grants,
    grant.fleet = lease.fleet ∧ grant.runner = lease.runner ∧
      grant.token < lease.fencingToken ∧ ∀ win ∈ s.wins, win.acquired.fleet = lease.fleet →
        grant.token ≤ win.acquired.fence → win.acquired.fence ≤ lease.fencingToken →
          win.acquired.runner = lease.runner

theorem win_unique {slots : SortedMap String Slot} {wins : List Win} {first second : Win}
    (ordered : Ordered slots wins) (first_won : first ∈ wins) (second_won : second ∈ wins)
    (fleet : first.acquired.fleet = second.acquired.fleet)
    (fence : first.acquired.fence = second.acquired.fence) : first = second := by
  have unique : (wins.map fun win => (win.acquired.fleet, win.acquired.fence)).Nodup := by
    apply List.pairwise_map.mpr
    apply ordered.ordered.imp
    intro later earlier grows same
    simp only [Prod.mk.injEq] at same
    have below := grows same.1
    omega
  exact List.inj_on_of_nodup_map unique first_won second_won (by rw [fleet, fence])

theorem live_last {s : System} (sound : Sound s) {tenure : Tenure} (member : tenure ∈ s.tenures)
    (live : tenure.live s.now) :
    ∃ slot, s.slots.get tenure.fleet = some slot ∧ tenure.token = slot.fencingToken := by
  obtain ⟨slot, found, bound, past, _⟩ := sound.tenured.past tenure member
  refine ⟨slot, found, ?_⟩
  by_contra older
  rcases past (by omega) with released | lapsed
  · rw [live.1] at released
    exact nomatch released
  · have lasts := live.2
    omega

/-- Over any claims, inserts, releases, settles, parks and time, a slot's token
fences every holder but the last. -/
theorem slots_fence_holders (now : Int) (events : List Event) :
    Fenced (Run.final System.step (System.start now) events) := by
  have sound := Run.invariant_of_step Sound (fun _ event held => sound_step event held)
    (sound_start now) events _ (Run.final_mem_states _ _ _)
  revert sound
  generalize Run.final System.step (System.start now) events = s
  intro sound
  refine ⟨sound.ordered.ordered, sound.paired, ?_, fun event => step_stale, ?_,
    sound.queued.once, sound.queued.exact, ?_, ?_⟩
  · intro first first_held second second_held same first_live second_live
    obtain ⟨slot, found, first_token⟩ := live_last sound first_held first_live
    obtain ⟨other, again, second_token⟩ := live_last sound second_held second_live
    rw [← same, found] at again
    cases again
    apply List.inj_on_of_nodup_map sound.tenured.unique first_held second_held
    rw [same, first_token, second_token]
  · intro fleet runner reading headless
    simp only [System.step, System.ledgerClaim, headless]
    split
    · rfl
    · rename_i claimed
      split at claimed
      · exact nomatch claimed
      · exact nomatch claimed
  · intro entry listed
    obtain ⟨row, held, id, _, fence⟩ := sound.queued.settled entry listed
    obtain ⟨win, won, own, token⟩ := sound.queued.stamped row held entry.2 fence
    refine ⟨win, won, own.trans id, token, ?_⟩
    intro other member same
    obtain ⟨again, inside, other_id, _, latest, stamped, bound⟩ := sound.queued.latest other member
    have equal := List.inj_on_of_nodup_map sound.queued.ids inside held
      (other_id.trans (same.trans id.symm))
    rw [equal, fence] at stamped
    cases stamped
    exact bound
  · intro lease held resumes
    obtain ⟨win, won, fleet, runner, fence, _, own⟩ := sound.leased lease held
    obtain ⟨deadline, _, grant, member, grant_fleet, grant_runner, _, low, since⟩ :=
      sound.holding.resumed win won (own.trans resumes)
    rw [fleet] at grant_fleet
    rw [runner] at grant_runner
    rw [fence] at low
    refine ⟨grant, member, grant_fleet, grant_runner, by omega, ?_⟩
    intro other inside same first second
    by_cases last : other.acquired.fence = lease.fencingToken
    · rw [win_unique sound.ordered inside won (same.trans fleet.symm) (last.trans fence.symm),
        runner]
    · rw [since other inside (same.trans fleet.symm) first (by omega), runner]

/-- A runner's report is granted a hold, and its next claim resumes the sandbox. -/
example :
    (Run.final System.step (System.start 0)
      [.admitted "a" "f", .admitted "b" "f", .claim "f" "r" ⟨["r"], some "a", false, 0⟩,
        .issue "l" "f" "r" 1 0 none, .report "l" "r" (some 90000000),
        .claim "f" "r" ⟨["r"], some "b", false, 0⟩, .issue "m" "f" "r" 2 0 none]).leases.map
      (fun lease => (lease.fencingToken, lease.status, lease.resumes)) =
        [(1, .reported, false), (2, .active, true)] := by
  decide +kernel

end Agentsfleet.Slots
