import Agentsfleet.Core.Id
import Agentsfleet.Core.Json
import Agentsfleet.Library.SortedMap
import Mathlib.Data.String.Basic
import Mathlib.Data.List.Perm.Basic

/-!
# The runner's report spool

A finished run's report waits on disk under `<lease>.json` until the daemon
answers it; a report the daemon cannot read is moved to `<lease>.rejected`.
Three writers share a lease's two names: a delivery, the drain's reshape of a
refused one-post report, and a settle's fall-back to the plain report.

What the environment decides (the daemon's answers, whether a write, a move or
a removal of a file went through, the order a directory is listed in) is an
argument of each operation.
-/

set_option autoImplicit false

namespace Agentsfleet.Spool

open Agentsfleet.Core Agentsfleet.Library

/-! ## What the daemon answers a report -/

abbrev ErrorCode := String

def invalidRequest : ErrorCode := "UZ-REQ-001"
def internalOperationFailed : ErrorCode := "UZ-INTERNAL-003"
def runInvalidRunnerToken : ErrorCode := "UZ-RUN-001"
def runStaleFencingToken : ErrorCode := "UZ-RUN-005"
def runLeaseNotFound : ErrorCode := "UZ-RUN-006"
def runLeaseLost : ErrorCode := "UZ-RUN-011"

def unauthorized : Nat := 401

def settledBy : List ErrorCode := [runStaleFencingToken, runLeaseNotFound, runLeaseLost]

/-- Refusal statuses a later attempt can change. -/
def keptOn : List Nat := [unauthorized, 403, 408, 413]

inductive Failure where
  | transport
  | unavailable (status : Nat)
  | refused (status : Nat) (code : Option ErrorCode)
  | io
deriving DecidableEq

namespace Failure

def isRetryable : Failure → Bool
  | .transport | .unavailable _ => true
  | .refused .. | .io => false

def refusalCode : Failure → Option ErrorCode
  | .refused _ code => code
  | _ => none

def refusalStatus : Failure → Option Nat
  | .refused status _ => some status
  | _ => none

def isUnauthorized : Failure → Bool
  | .refused status _ => status == unauthorized
  | _ => false

def code : Failure → ErrorCode
  | .refused _ (some code) => code
  | .refused status none =>
      if status = unauthorized then runInvalidRunnerToken else internalOperationFailed
  | .transport | .unavailable _ | .io => internalOperationFailed

/-- Whether a later attempt could get a different answer. -/
def kept (failure : Failure) : Bool :=
  failure.isRetryable || failure.refusalStatus.any keptOn.contains

/-- Whether a refusal means the lease is settled for good. -/
def settles (refusal : Failure) : Bool := refusal.refusalCode.any settledBy.contains

end Failure

/-- `Ok`, or how the post failed. -/
abbrev Answer := Except Failure Unit

/-- The daemon took the report, or named a code that settles its lease. -/
def Answer.conclusive : Answer → Bool
  | .ok () => true
  | .error failure => failure.settles

def Answer.rejects : Answer → Bool
  | .ok () => false
  | .error failure => !failure.kept && !failure.settles

/-! ## The directory -/

variable {Bytes : Type}

structure Spooled (Bytes : Type) where
  name : String
  bytes : Bytes

inductive Delivery where
  | settled
  | superseded
  | kept (failure : Failure)
  | rejected (refusal : Failure)
deriving DecidableEq

/-- The two names a report can stand under, and what a run is judged by: every
name a report ever stood under, and every answer the daemon gave, each with the
name it answered. -/
structure World (Bytes : Type) where
  json : SortedMap String Bytes
  rejected : SortedMap String Bytes
  held : List String
  answers : List (String × Answer)

def World.start (json rejected : SortedMap String Bytes) : World Bytes :=
  ⟨json, rejected, json.keys ++ rejected.keys, []⟩

inductive Disk where
  | done
  | failed
deriving DecidableEq

/-- How a durable write ended: in place and synced, in place with the
directory's sync refused, or not written. -/
inductive Written where
  | durable
  | unsynced
  | failed
deriving DecidableEq

namespace World

def written (world : World Bytes) (name : String) (bytes : Bytes) : World Bytes :=
  { world with json := world.json.insert name bytes, held := name :: world.held }

/-- `ReportSpool::hold`. -/
def hold (world : World Bytes) (lease : Uuid7) (bytes : Bytes) (outcome : Written) :
    Option (Spooled Bytes) × World Bytes :=
  match outcome with
  | .durable => (some ⟨lease.text, bytes⟩, world.written lease.text bytes)
  | .unsynced => (none, world.written lease.text bytes)
  | .failed => (none, world)

/-- `ReportSpool::forget_rejected`; a copy that is gone already is no failure. -/
def forgetRejected (world : World Bytes) (lease : Uuid7) (disk : Disk) : World Bytes :=
  match disk with
  | .done => { world with rejected := world.rejected.remove lease.text }
  | .failed => world

def answered (world : World Bytes) (name : String) (answer : Answer) : World Bytes :=
  { world with answers := (name, answer) :: world.answers }

def removeEntry (world : World Bytes) (name : String) (disk : Disk) (delivery : Delivery) :
    Except Failure Delivery × World Bytes :=
  match world.json.get name, disk with
  | some _, .failed => (.error .io, world)
  | _, _ => (.ok delivery, { world with json := world.json.remove name })

def setAside (world : World Bytes) (name : String) (disk : Disk) (refusal : Failure) :
    Except Failure Delivery × World Bytes :=
  match world.json.get name, disk with
  | some bytes, .done =>
      (.ok (.rejected refusal),
        { world with
          json := world.json.remove name
          rejected := world.rejected.insert name bytes })
  | _, _ => (.error .io, world)

/-- What meets one post: the daemon's answer, and the file call it leads to. -/
structure Exchange where
  answer : Answer
  disk : Disk

/-- `Spooled::deliver`. -/
def deliver (world : World Bytes) (name : String) (turn : Exchange) :
    Except Failure Delivery × World Bytes :=
  let world := world.answered name turn.answer
  match turn.answer with
  | .ok () => world.removeEntry name turn.disk .settled
  | .error failure =>
      if failure.kept then (.ok (.kept failure), world)
      else if failure.settles then world.removeEntry name turn.disk .superseded
      else world.setAside name turn.disk failure

end World

def fieldMemory : String := "memory"
def fieldTelemetry : String := "telemetry"
def fieldSegments : String := "segments"

/-- A one-post report an older daemon refused for its shape, as the body that
daemon reads; `none` for any other refusal or a body that carried neither field. -/
def reshaped (codec : Codec Bytes) (refusal : Failure) (bytes : Bytes) : Option Bytes :=
  if refusal.code ≠ invalidRequest then
    none
  else
    match codec.fromSlice bytes with
    | some (.object fields) =>
        let memory := (Members.get? fields fieldMemory).isSome
        let fields := Members.remove fields fieldMemory
        match Members.get? fields fieldTelemetry with
        | some (.object telemetry) =>
            let segments := (Members.get? telemetry fieldSegments).isSome
            let plain := Members.replace fields fieldTelemetry
              (.object (Members.remove telemetry fieldSegments))
            if memory || segments then some (codec.toVec (.object plain)) else none
        | _ => if memory then some (codec.toVec (.object fields)) else none
    | _ => none

/-! ## The drain -/

/-- What meets a replacement copy: its write, its post, and the removal of the
refused copy. -/
structure Replacement where
  written : Written
  exchange : World.Exchange
  forget : Disk

namespace World

/-- `Drainer::reshape`. -/
def reshape (codec : Codec Bytes) (world : World Bytes) (spooled : Spooled Bytes)
    (refusal : Failure) (turn : Replacement) : Except Failure Delivery × World Bytes :=
  match reshaped codec refusal spooled.bytes, Uuid7.parse spooled.name with
  | some plain, some lease =>
      match world.hold lease plain turn.written with
      | (some plain, world) =>
          let (delivered, world) := world.deliver plain.name turn.exchange
          (delivered, world.forgetRejected lease turn.forget)
      | (none, world) => (.ok (.rejected refusal), world)
  | _, _ => (.ok (.rejected refusal), world)

structure Visit where
  first : Exchange
  replacement : Replacement

def visit (codec : Codec Bytes) (world : World Bytes) (spooled : Spooled Bytes) (turn : Visit) :
    Except Failure Delivery × World Bytes :=
  match world.deliver spooled.name turn.first with
  | (.ok (.rejected refusal), world) => world.reshape codec spooled refusal turn.replacement
  | delivered => delivered

/-- Whether a pass ends at this delivery: the daemon refused the runner's token. -/
def stopsOn : Except Failure Delivery → Bool
  | .ok (.kept failure) => failure.isUnauthorized
  | _ => false

def drain (codec : Codec Bytes) : List (Spooled Bytes × Visit) → World Bytes → World Bytes
  | [], world => world
  | (spooled, turn) :: rest, world =>
      let (delivered, world) := world.visit codec spooled turn
      if stopsOn delivered then world else drain codec rest world

/-- The held reports in the order the directory lists them, each as read
before the first of them is posted. -/
def listed (world : World Bytes) (visits : List (String × Visit)) :
    List (Spooled Bytes × Visit) :=
  visits.filterMap fun entry =>
    (world.json.get entry.1).map fun bytes => (⟨entry.1, bytes⟩, entry.2)

/-- `Drainer::pass`.  A list of visits that is no listing of the directory is
no pass. -/
def pass (codec : Codec Bytes) (world : World Bytes) (visits : List (String × Visit)) :
    World Bytes :=
  if (visits.map Prod.fst).Perm world.json.keys then
    drain codec (world.listed visits) world
  else world

end World

/-! ## The settle -/

inductive Posted where
  | recorded
  | lost
  | shapeRefused
deriving DecidableEq

def Posted.refused (refusal : Failure) : Posted :=
  if refusal.code = invalidRequest then .shapeRefused else .lost

/-- What meets one of a settle's posts: the write, then the post of the spooled
copy or, where it was not spooled, the last attempt of the direct one. -/
structure Post where
  written : Written
  exchange : World.Exchange

/-- What one lease's settle posts, and what meets it.  `onePost` says the lease
carried its memory window, so `body` carries memory and segments and `plain` is
the report without them. -/
structure Settle (Bytes : Type) where
  lease : Uuid7
  onePost : Bool
  body : Bytes
  plain : Bytes
  first : Post
  second : Post
  forget : Disk

namespace World

/-- What `LeaseRun::deliver` reads off a delivery. -/
def postedOf : Except Failure Delivery → Posted
  | .ok .settled => .recorded
  | .ok .superseded => .lost
  | .ok (.rejected refusal) => Posted.refused refusal
  | .ok (.kept _) | .error _ => .recorded

/-- `LeaseRun::post_unspooled`. -/
def postUnspooled (world : World Bytes) (lease : Uuid7) (answer : Answer) : Posted × World Bytes :=
  let world := world.answered lease.text answer
  match answer with
  | .ok () => (.recorded, world)
  | .error lost => (Posted.refused lost, world)

/-- `LeaseRun::post`. -/
def post (world : World Bytes) (lease : Uuid7) (bytes : Bytes) (turn : Post) :
    Posted × World Bytes :=
  match world.hold lease bytes turn.written with
  | (some spooled, world) =>
      let (delivered, world) := world.deliver spooled.name turn.exchange
      (postedOf delivered, world)
  | (none, world) => world.postUnspooled lease turn.exchange.answer

/-- `LeaseRun::fall_back`. -/
def fallBack (world : World Bytes) (run : Settle Bytes) : World Bytes :=
  let (_, world) := world.post run.lease run.plain run.second
  world.forgetRejected run.lease run.forget

/-- `LeaseRun::settle`, from its first post on. -/
def settle (world : World Bytes) (run : Settle Bytes) : World Bytes :=
  match world.post run.lease run.body run.first with
  | (.shapeRefused, world) => if run.onePost then world.fallBack run else world
  | (_, world) => world

end World

/-! ## Runs -/

inductive Event (Bytes : Type) where
  | settle (run : Settle Bytes)
  | pass (visits : List (String × World.Visit))

def step (codec : Codec Bytes) (world : World Bytes) : Event Bytes → World Bytes
  | .settle run => world.settle run
  | .pass visits => world.pass codec visits

end Agentsfleet.Spool
