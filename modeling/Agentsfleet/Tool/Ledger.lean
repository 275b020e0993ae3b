import Agentsfleet.Library.Run
import Agentsfleet.Tool.Detail

/-!
# The ledger of a run's tool calls

Calls are numbered from one as they open and end once each, in whatever order:
with what their handler returned, or interrupted.  An end adds the call's row to
the trace, and a return holds its full record while the event's budget lasts.
-/

set_option autoImplicit false

namespace Agentsfleet.Tool

open Agentsfleet.Core
open Agentsfleet.Context (nulFree)
open Agentsfleet.Library

/-- One call between its start frame and its end. -/
structure Opened where
  number : Nat
  name : String
  arguments : CleanJson

/-- What a call's handler returned, its text scrubbed. -/
structure ToolOutput (ErrorCode : Type) where
  text : CleanText
  errorCode : Option ErrorCode
  exitCode : Option Int

/-- The ledger's book and its open calls; `ended` counts the rows pushed. -/
structure Ledger where
  trace : Trace
  records : List ToolCallRecord
  spent : Nat
  calls : Nat
  opened : List Opened
  ended : Nat

inductive CallEvent (ErrorCode : Type) where
  | called (name : String) (arguments : CleanJson)
  | closed (which : Nat) (output : ToolOutput ErrorCode) (elapsed : Nat)
  /-- The call's future is dropped before its handler returned. -/
  | dropped (which : Nat) (elapsed : Nat)

namespace Ledger

variable {ErrorCode : Type}

def new : Ledger := ⟨Trace.empty, [], 0, 0, [], 0⟩

/-- `open`: numbers the next call. -/
def call (s : Ledger) (name : String) (arguments : CleanJson) : Ledger :=
  { s with
    calls := s.calls + 1
    opened := s.opened ++ [⟨s.calls + 1, name, arguments⟩] }

/-- Holds `record` when it fits what is left of the event's budget. -/
def hold (s : Ledger) (record : ToolCallRecord) : Ledger :=
  let after := s.spent + record.byteCount
  if after ≤ detailEventMaxBytes then { s with spent := after, records := s.records ++ [record] }
  else s

/-- `end`: adds the trace row of a call no longer open. -/
def finishCall (s : Ledger) (which : Nat) (call : Opened) (outcome : Outcome) : Ledger :=
  { s with
    trace := s.trace.push call.number call.name (boundedArguments call.arguments) outcome
    opened := s.opened.eraseIdx which
    ended := s.ended + 1 }

def status (output : ToolOutput ErrorCode) : ToolCallStatus :=
  if output.errorCode.isSome || output.exitCode.any fun code => decide (code ≠ 0) then .failed
  else .succeeded

def close (s : Ledger) (which : Nat) (output : ToolOutput ErrorCode) (elapsed : Nat) : Ledger :=
  match s.opened[which]? with
  | some call =>
      let outcome := Outcome.ended (status output) output.text output.exitCode elapsed
      (s.finishCall which call outcome).hold
        (record (UInt64.ofNat call.number) call.arguments output.text)
  | none => s

def drop (s : Ledger) (which : Nat) (elapsed : Nat) : Ledger :=
  match s.opened[which]? with
  | some call => s.finishCall which call (Outcome.interrupted elapsed)
  | none => s

def step (s : Ledger) : CallEvent ErrorCode → Ledger
  | .called name arguments => s.call name arguments
  | .closed which output elapsed => s.close which output elapsed
  | .dropped which elapsed => s.drop which elapsed

def openings (events : List (CallEvent ErrorCode)) : Nat :=
  events.countP fun event =>
    match event with
    | .called _ _ => true
    | _ => false

/-! ## What the book keeps -/

def Numbered (bound : Nat) (call : Opened) : Prop := 1 ≤ call.number ∧ call.number ≤ bound

structure Sound (s : Ledger) : Prop where
  trace : s.trace.Sound s.ended
  numbered : ∀ call ∈ s.opened, Numbered s.calls call
  ends : s.opened.length + s.ended = s.calls
  /-- Only a row's name can hold a NUL. -/
  rows : ∀ row ∈ s.trace.calls, nulFree row.name = true → row.freeOfNul = true

theorem rowFits {call : Opened} {bound : Nat} (numbered : Numbered bound call)
    (bounded : bound ≤ callNumberMax) {outcome : Outcome} (fits : outcome.Fits) :
    ToolTrace.RowFits
      (Trace.row call.number call.name (boundedArguments call.arguments) outcome) := by
  obtain ⟨small, leaves, _⟩ := boundedArguments_fit call.arguments
  refine ⟨?_, decide_eq_true small, leaves, ?_⟩
  · have last := numbered.2
    rw [callNumberMax] at bounded
    exact callNumber_repr numbered.1 (by omega)
  · rw [ToolTraceCall.edgesFit, Trace.row, fits.head, fits.tail, Bool.and_self]

theorem row_free (call : Opened) {outcome : Outcome} (fits : outcome.Fits)
    (named : nulFree call.name = true) :
    (Trace.row call.number call.name (boundedArguments call.arguments) outcome).freeOfNul =
      true := by
  rw [ToolTraceCall.freeOfNul, Trace.row, nulFree_repr, named, fits.headFree, fits.tailFree,
    (boundedArguments_fit call.arguments).2.2]
  rfl

theorem name_free {row : ToolTraceCall} (free : row.freeOfNul = true) :
    nulFree row.name = true := by
  simp only [ToolTraceCall.freeOfNul, Bool.and_eq_true] at free
  exact free.1.1.1.2

namespace Sound

variable {s : Ledger}

theorem new : Ledger.new.Sound := ⟨Trace.sound_empty, nofun, rfl, nofun⟩

theorem call (sound : s.Sound) (name : String) (arguments : CleanJson) :
    (s.call name arguments).Sound := by
  refine ⟨sound.trace, ?_, ?_, sound.rows⟩
  · intro call member
    rcases List.mem_append.mp member with before | new
    · obtain ⟨first, last⟩ := sound.numbered call before
      exact ⟨first, Nat.le_succ_of_le last⟩
    · rw [List.mem_singleton.mp new]
      exact ⟨Nat.le_add_left 1 s.calls, Nat.le_refl _⟩
  · have ends := sound.ends
    simp only [Ledger.call, List.length_append, List.length_singleton]
    omega

theorem finishCall (sound : s.Sound) (bounded : s.calls ≤ callNumberMax) {which : Nat}
    {call : Opened} (found : s.opened[which]? = some call) {outcome : Outcome}
    (fits : outcome.Fits) : (s.finishCall which call outcome).Sound := by
  have numbered := sound.numbered call (List.mem_of_getElem? found)
  refine ⟨sound.trace.push (rowFits numbered bounded fits), ?_, ?_, ?_⟩
  · intro other member
    exact sound.numbered other (List.mem_of_mem_eraseIdx member)
  · obtain ⟨inside, _⟩ := List.getElem?_eq_some_iff.mp found
    have ends := sound.ends
    simp only [Ledger.finishCall, List.length_eraseIdx_of_lt inside]
    omega
  · exact Trace.forall_push (fun _ free named => ToolTraceCall.freeOfNul_bare (free named))
      sound.rows (row_free call fits)

theorem hold (sound : s.Sound) (record : ToolCallRecord) : (s.hold record).Sound := by
  rw [Ledger.hold]
  split
  · exact ⟨sound.trace, sound.numbered, sound.ends, sound.rows⟩
  · exact sound

theorem step (sound : s.Sound) (bounded : s.calls ≤ callNumberMax)
    (event : CallEvent ErrorCode) : (s.step event).Sound := by
  cases event with
  | called name arguments => exact sound.call name arguments
  | closed which output elapsed =>
      rw [Ledger.step, Ledger.close]
      cases found : s.opened[which]? with
      | none => exact sound
      | some call =>
          exact (sound.finishCall bounded found (Outcome.ended_fits _ _ _ _)).hold _
  | dropped which elapsed =>
      rw [Ledger.step, Ledger.drop]
      cases found : s.opened[which]? with
      | none => exact sound
      | some call => exact sound.finishCall bounded found (Outcome.interrupted_fits elapsed)

end Sound

theorem calls_hold (s : Ledger) (record : ToolCallRecord) : (s.hold record).calls = s.calls := by
  rw [hold]
  split
  · rfl
  · rfl

theorem calls_step (s : Ledger) (event : CallEvent ErrorCode) :
    (s.step event).calls = s.calls + openings [event] := by
  cases event with
  | called name arguments => rfl
  | closed which output elapsed =>
      rw [step, close]
      split
      · rw [calls_hold]
        rfl
      · rfl
  | dropped which elapsed =>
      rw [step, drop]
      split
      · rfl
      · rfl

theorem openings_cons (event : CallEvent ErrorCode) (rest : List (CallEvent ErrorCode)) :
    openings (event :: rest) = openings [event] + openings rest := by
  rw [openings, openings, openings, ← List.countP_append, List.singleton_append]

theorem Sound.run {s : Ledger} (sound : s.Sound) {events : List (CallEvent ErrorCode)}
    (bounded : s.calls + openings events ≤ callNumberMax) :
    (Run.final Ledger.step s events).Sound ∧
      (Run.final Ledger.step s events).calls = s.calls + openings events := by
  induction events generalizing s with
  | nil => exact ⟨sound, rfl⟩
  | cons event rest ih =>
      have counted := calls_step s event
      rw [openings_cons] at bounded ⊢
      obtain ⟨kept, calls⟩ := ih (sound.step (by omega) event) (by omega)
      refine ⟨kept, ?_⟩
      rw [Run.final, calls, counted]
      omega

/-! ## Names without a NUL -/

structure Named (s : Ledger) : Prop where
  opened : ∀ call ∈ s.opened, nulFree call.name = true
  listed : ∀ row ∈ s.trace.calls, nulFree row.name = true

theorem Named.finishCall {s : Ledger} (named : s.Named) {which : Nat} {call : Opened}
    (found : s.opened[which]? = some call) (outcome : Outcome) :
    (s.finishCall which call outcome).Named := by
  refine ⟨?_, ?_⟩
  · intro other member
    exact named.opened other (List.mem_of_mem_eraseIdx member)
  · exact Trace.forall_push (fun _ free => free) named.listed
      (named.opened call (List.mem_of_getElem? found))

def NamesClean : CallEvent ErrorCode → Prop
  | .called name _ => nulFree name = true
  | _ => True

theorem Named.step {s : Ledger} (named : s.Named) (event : CallEvent ErrorCode)
    (clean : NamesClean event) : (s.step event).Named := by
  cases event with
  | called name arguments =>
      refine ⟨?_, named.listed⟩
      intro call member
      rcases List.mem_append.mp member with before | new
      · exact named.opened call before
      · rw [List.mem_singleton.mp new]
        exact clean
  | closed which output elapsed =>
      rw [Ledger.step, close]
      cases found : s.opened[which]? with
      | none => exact named
      | some call =>
          have ended := named.finishCall found
            (Outcome.ended (status output) output.text output.exitCode elapsed)
          simp only [hold]
          split
          · exact ⟨ended.opened, ended.listed⟩
          · exact ended
  | dropped which elapsed =>
      rw [Ledger.step, drop]
      cases found : s.opened[which]? with
      | none => exact named
      | some call => exact named.finishCall found (Outcome.interrupted elapsed)

theorem Named.run {s : Ledger} (named : s.Named) {events : List (CallEvent ErrorCode)}
    (clean : ∀ event ∈ events, NamesClean event) : (Run.final Ledger.step s events).Named := by
  induction events generalizing s with
  | nil => exact named
  | cons event rest ih =>
      obtain ⟨first, others⟩ := List.forall_mem_cons.mp clean
      exact ih (named.step event first) others

/-! ## The finished trace -/

/-- The finished trace fits its bounds and lists or counts every call that ended;
it is refused for a NUL in a listed name or not at all. -/
theorem Sound.finished {s : Ledger} (sound : s.Sound) (bounded : s.calls ≤ callNumberMax) :
    s.trace.finish.encodedLen ≤ traceMaxBytes ∧
      s.trace.finish.calls.length + s.trace.finish.omittedCallCount = s.ended ∧
      (s.trace.finish.validate = .ok () ↔ ∀ row ∈ s.trace.calls, nulFree row.name = true) := by
  have ends := sound.ends
  rw [callNumberMax] at bounded
  have small := sound.trace.encodes (by omega)
  refine ⟨small, sound.trace.counted, ?_⟩
  rw [ToolTrace.validate_of_fits sound.trace.few small sound.trace.fit]
  constructor
  · intro free row member
    exact name_free (free row member)
  · intro named row member
    exact sound.rows row member (named row member)

/-- A finished trace that `validate` accepts, within the row's bytes, every call counted. -/
structure Admitted (s : Ledger) : Prop where
  valid : s.trace.finish.validate = .ok ()
  encodes : s.trace.finish.encodedLen ≤ traceMaxBytes
  counted : s.trace.finish.calls.length + s.trace.finish.omittedCallCount = s.ended

/-- Over any calls opened and ended in any order, as long as no name holds a NUL. -/
theorem trace_admitted {ErrorCode : Type} (events : List (CallEvent ErrorCode))
    (named : ∀ event ∈ events, NamesClean event) (bounded : openings events ≤ callNumberMax) :
    (Run.final step new events).Admitted := by
  have few : new.calls + openings events ≤ callNumberMax := by
    rwa [new, Nat.zero_add]
  obtain ⟨sound, calls⟩ := Sound.new.run few
  obtain ⟨encodes, counted, valid⟩ := sound.finished (calls ▸ few)
  have start : new.Named := ⟨nofun, nofun⟩
  exact ⟨valid.mpr (start.run named).listed, encodes, counted⟩

def oneCall (name : String) : List (CallEvent Empty) :=
  [.called name ⟨.object [], rfl⟩, .closed 0 ⟨⟨"ok", by decide⟩, none, some 0⟩ 3000000]

theorem oneCall_admitted : (Run.final step new (oneCall "update_plan")).Admitted := by
  refine trace_admitted (oneCall "update_plan") ?_ (by decide)
  rw [oneCall, List.forall_mem_cons, List.forall_mem_singleton]
  have plain : nulFree "update_plan" = true := by decide
  exact ⟨plain, trivial⟩

/-- The run admits any name; the wire refuses one that holds a NUL. -/
theorem nul_name_refused : ¬ (Run.final step new (oneCall "\x00")).Admitted := by
  intro admitted
  have few : new.calls + openings (oneCall "\x00") ≤ callNumberMax := by decide
  obtain ⟨sound, calls⟩ := Sound.new.run few
  have named := (sound.finished (by rw [calls]; decide)).2.2.mp admitted.valid
  have listed : (Run.final step new (oneCall "\x00")).trace.calls.all
      (fun row => nulFree row.name) = false := by decide +kernel
  rw [List.all_eq_true.mpr named] at listed
  exact absurd listed (by decide)

end Ledger

end Agentsfleet.Tool
