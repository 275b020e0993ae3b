import Agentsfleet.Library.Run
import Agentsfleet.Pending.Ledger

/-!
# Tabs over one ledger

Any number of tabs with one user's ledger in the storage they share.  A tab's read of storage
and its write are two steps, and a tab hears of the others' writes late, in their order.
-/

set_option autoImplicit false

namespace Agentsfleet.Pending

open Agentsfleet.Library

abbrev Dismissal := String × Nat

/-- A tab: its copy of the ledger once it has read it, the sends it has in flight, and those
whose change storage refused.  `stored` is what a write that has begun found in storage, `late`
the values storage events still bring, and `held` the standing dismissals whose tombstone the
tab has had. -/
structure Tab where
  ledger : Option Entries
  ownInFlight : List String
  unsaved : List String
  locks : Bool
  swept : Bool
  stored : Option Entries
  late : List Entries
  held : List Dismissal
  deriving DecidableEq

/-- `standing` lists the dismissals since which no tab has begun or settled the send, or
evicted its tombstone. -/
structure World where
  now : Nat
  storage : Entries
  tabs : List Tab
  standing : List Dismissal

namespace Tab

def entries (tab : Tab) : Entries := tab.ledger.getD []

/-- A tab's first read: without locks, a `sending` it did not start reads as unknown. -/
def hydrate (tab : Tab) (storage : Entries) (now : Nat) : Entries :=
  (live storage now).map fun entry =>
    if entry.state = .sending ∧ tab.locks = false then { entry with state := .unknown } else entry

def merge (tab : Tab) (value : Entries) (now : Nat) : Entries :=
  mergeIncoming (live value now) tab.entries tab.unsaved tab.ownInFlight

/-- The tab shows another tab's send as `sending`. -/
def watches (tab : Tab) (operationId : String) : Bool :=
  let orphan := tab.entries.find? fun entry => entry.operationId = operationId
  orphan.map PendingSend.state = some .sending && operationId ∉ tab.ownInFlight

def tombstones (tab : Tab) : List Dismissal :=
  (tab.entries.filter fun entry => entry.state = .dismissed).map fun entry =>
    (entry.operationId, entry.submittedAtMs)

/-- The dismissals of `ids` no longer stand. -/
def lift (tab : Tab) (ids : List String) : Tab :=
  { tab with held := tab.held.filter fun dismissal => dismissal.1 ∉ ids }

end Tab

namespace World

def start : World := ⟨0, [], [], []⟩

variable (w : World)

def setTab (n : Nat) (tab : Tab) : World := { w with tabs := w.tabs.set n tab }

def write (n : Nat) (value : Entries) : World :=
  if value = w.storage then w
  else
    { w with
      storage := value
      tabs := w.tabs.mapIdx fun i tab =>
        if i = n then tab else { tab with late := tab.late ++ [value] } }

def lift (ids : List String) : World :=
  { w with
    standing := w.standing.filter fun dismissal => dismissal.1 ∉ ids
    tabs := w.tabs.map fun tab => tab.lift ids }

def mark : World :=
  { w with
    tabs := w.tabs.map fun tab =>
      { tab with
        held := tab.tombstones.filter (fun dismissal => dismissal ∈ w.standing) ++ tab.held } }

/-- Once in a tab: removes a ledger whose every entry has expired. -/
def sweepExpired (n : Nat) : World :=
  match w.tabs[n]? with
  | some tab =>
      if tab.swept then w
      else
        let w := w.setTab n { tab with swept := true, stored := none }
        if (live w.storage w.now).isEmpty then w.write n [] else w
  | none => w

def read (n : Nat) : World :=
  match w.tabs[n]? with
  | some tab =>
      match tab.ledger with
      | some _ => w
      | none =>
          let w := w.sweepExpired n
          w.setTab n { tab with
            swept := true, stored := none, ledger := some (tab.hydrate w.storage w.now) }
  | none => w

def look (n : Nat) : World :=
  let w := w.read n
  match w.tabs[n]? with
  | some tab => w.setTab n { tab with stored := some w.storage }
  | none => w

def mutate (n : Nat) (operationId : String) (change : Entries → Entries) (refused : Bool) :
    World :=
  let w := w.read n
  match w.tabs[n]? with
  | some tab =>
      let changed := change (tab.merge (tab.stored.getD w.storage) w.now)
      let next := capped changed
      let unburied := Entries.ids ((evicted changed).filter fun entry => entry.state = .dismissed)
      let tab := { tab with
        ledger := some next
        stored := none
        unsaved := if refused then operationId :: tab.unsaved else [] }
      let w := (w.lift unburied).setTab n (tab.lift unburied)
      if refused then w else w.write n next
  | none => w

def setOwn (n : Nat) (change : List String → List String) : World :=
  match w.tabs[n]? with
  | some tab => w.setTab n { tab with ownInFlight := change tab.ownInFlight }
  | none => w

/-! ## What an operator and the daemon do -/

def began (operationId text : String) (now : Nat) (entries : Entries) : Entries :=
  entries.filter (fun held => held.operationId ≠ operationId) ++
    [{ operationId, text, state := .sending, submittedAtMs := now }]

/-- A send leaves, stamped with the time as its one caller stamps it. -/
def beginPendingSend (n : Nat) (operationId text : String) (refused : Bool) : World :=
  let w := (w.lift [operationId]).setOwn n (operationId :: ·)
  w.mutate n operationId (began operationId text w.now) refused

/-- A send's ending, written while the send is still the tab's own. -/
def finish (n : Nat) (operationId : String) (change : Entries → Entries) (refused : Bool) :
    World :=
  (w.mutate n operationId change refused).setOwn n (·.filter (· ≠ operationId))

def settled (operationId : String) (entries : Entries) : Entries :=
  entries.filter fun entry => entry.operationId ≠ operationId

def settlePendingSend (n : Nat) (operationId : String) (refused : Bool) : World :=
  (w.lift [operationId]).finish n operationId (settled operationId) refused

def dismissed (operationId : String) (now : Nat) (entries : Entries) : Entries :=
  entries.map fun entry =>
    if entry.operationId = operationId then
      { operationId, text := "", state := .dismissed, submittedAtMs := now }
    else entry

def dismissPendingSend (n : Nat) (operationId : String) (refused : Bool) : World :=
  let w := { w with standing := (operationId, w.now) :: w.standing }
  w.finish n operationId (dismissed operationId w.now) refused

def failed (operationId : String) (state : PendingSendOutcome) (entries : Entries) : Entries :=
  entries.map fun entry =>
    if entry.operationId = operationId ∧ entry.state ≠ .dismissed then
      { entry with state := state.state }
    else entry

def failPendingSend (n : Nat) (operationId : String) (state : PendingSendOutcome)
    (refused : Bool) : World :=
  w.finish n operationId (failed operationId state) refused

/-! ## What a tab hears -/

def orphaned (operationId : String) (entries : Entries) : Entries :=
  entries.map fun entry =>
    if entry.operationId = operationId ∧ entry.state = .sending then
      { entry with state := .unknown }
    else entry

/-- A watched send's lock is granted, or the manager refuses to say. -/
def ownerGone (n : Nat) (operationId : String) : World :=
  match w.tabs[n]? with
  | some tab =>
      if tab.watches operationId then
        w.setTab n { tab with
          ledger := some (orphaned operationId (tab.merge w.storage w.now)), stored := none }
      else w
  | none => w

def onStorage (n : Nat) : World :=
  match w.tabs[n]? with
  | some tab =>
      match tab.late with
      | [] => w
      | value :: rest =>
          w.setTab n { tab with
            late := rest
            stored := none
            ledger := tab.ledger.map fun _ => tab.merge value w.now }
  | none => w

end World

inductive Event
  | tick (ms : Nat)
  | load (locks : Bool)
  | sweepExpired (n : Nat)
  | read (n : Nat)
  | look (n : Nat)
  | beginPendingSend (n : Nat) (operationId text : String) (refused : Bool)
  | settlePendingSend (n : Nat) (operationId : String) (refused : Bool)
  | dismissPendingSend (n : Nat) (operationId : String) (refused : Bool)
  | failPendingSend (n : Nat) (operationId : String) (state : PendingSendOutcome) (refused : Bool)
  | ownerGone (n : Nat) (operationId : String)
  | onStorage (n : Nat)
  deriving DecidableEq

namespace World

def act (w : World) : Event → World
  | .tick ms => { w with now := w.now + ms }
  | .load locks => { w with tabs := w.tabs ++ [⟨none, [], [], locks, false, none, [], []⟩] }
  | .sweepExpired n => w.sweepExpired n
  | .read n => w.read n
  | .look n => w.look n
  | .beginPendingSend n operationId text refused => w.beginPendingSend n operationId text refused
  | .settlePendingSend n operationId refused => w.settlePendingSend n operationId refused
  | .dismissPendingSend n operationId refused => w.dismissPendingSend n operationId refused
  | .failPendingSend n operationId state refused => w.failPendingSend n operationId state refused
  | .ownerGone n operationId => w.ownerGone n operationId
  | .onStorage n => w.onStorage n

def step (w : World) (event : Event) : World := (w.act event).mark

end World

end Agentsfleet.Pending
