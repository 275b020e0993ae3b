import Agentsfleet.Context.Checkpoint
import Agentsfleet.Core.Bounds
import Agentsfleet.Core.JsonTree

/-!
# A run's tool trace on the wire

The rows a trace lists, the text they encode to, and the bounds the daemon
checks before it stores one.
-/

set_option autoImplicit false

namespace Agentsfleet.Tool

open Agentsfleet.Core
open Agentsfleet.Context (nulFree)
open Agentsfleet.Library

def argsMaxBytes : Nat := 2048
def argsLeafMaxBytes : Nat := 256
def outputEdgeMaxLines : Nat := 5
def outputEdgeMaxBytes : Nat := 1024
def traceMaxCalls : Nat := 200
def traceMaxBytes : Nat := 64 * 1024
def callIdMaxBytes : Nat := 64
def firstCall : Int := 1

inductive ToolCallStatus where
  | succeeded
  | failed
  | interrupted
deriving DecidableEq, Repr

def ToolCallStatus.asStr : ToolCallStatus → String
  | .succeeded => "succeeded"
  | .failed => "failed"
  | .interrupted => "interrupted"

structure ToolTraceCall where
  callId : String
  name : String
  arguments : Members
  status : ToolCallStatus
  outputHead : Option String
  outputTail : Option String
  outputLineCount : Option Nat
  exitCode : Option Int
  durationMs : Nat

def optional (key : String) (value : Option Json) : List (String × Json) :=
  match value with
  | some value => [(key, value)]
  | none => []

def decimal (value : Nat) : Json := .number (Nat.repr value)

namespace ToolTraceCall

def opening (call : ToolTraceCall) : List (String × Json) :=
  [("call_id", .string call.callId), ("name", .string call.name),
    ("arguments", .object call.arguments), ("status", .string call.status.asStr)]

def closing (call : ToolTraceCall) : List (String × Json) :=
  optional "output_line_count" (call.outputLineCount.map decimal) ++
    optional "exit_code" (call.exitCode.map fun code => .number (toString code)) ++
    [("duration_ms", decimal call.durationMs)]

def toJson (call : ToolTraceCall) : Json :=
  .object (call.opening ++ optional "output_head" (call.outputHead.map .string) ++
    optional "output_tail" (call.outputTail.map .string) ++ call.closing)

def encodedLen (call : ToolTraceCall) : Nat := call.toJson.encodedLen

def bare (call : ToolTraceCall) : ToolTraceCall :=
  { call with outputHead := none, outputTail := none }

theorem encodedLen_bare_le (call : ToolTraceCall) : call.bare.encodedLen ≤ call.encodedLen := by
  have kept : call.bare.toJson = .object (call.opening ++ call.closing) := rfl
  rw [encodedLen, encodedLen, kept, toJson, Json.encodedLen_object, Json.encodedLen_object]
  simp only [Json.membersLen_append, List.length_append]
  omega

end ToolTraceCall

structure ToolTrace where
  calls : List ToolTraceCall
  omittedCallCount : Nat

namespace ToolTrace

def toJson (trace : ToolTrace) : Json :=
  .object [("calls", .array (trace.calls.map ToolTraceCall.toJson)),
    ("omitted_call_count", decimal trace.omittedCallCount)]

def encodedLen (trace : ToolTrace) : Nat := trace.toJson.encodedLen

def rowsLen (calls : List ToolTraceCall) : Nat :=
  Json.itemsLen (calls.map ToolTraceCall.toJson) + (calls.length - 1)

theorem encodedLen_eq (trace : ToolTrace) :
    trace.encodedLen =
      (ToolTrace.mk [] trace.omittedCallCount).encodedLen + rowsLen trace.calls := by
  simp only [encodedLen, toJson, Json.encodedLen_object, Json.membersLen, Json.encodedLen_array,
    List.map_nil, Json.itemsLen, rowsLen, List.length_map, List.length_nil, List.length_cons]
  omega

/-- A count of at most twenty digits takes no more room than the largest. -/
theorem encodedLen_empty_le {omitted : Nat} (bounded : omitted < 2 ^ 64) :
    (ToolTrace.mk [] omitted).encodedLen ≤ (ToolTrace.mk [] (2 ^ 64 - 1)).encodedLen := by
  have digits : (Nat.repr omitted).utf8ByteSize ≤ 20 :=
    (Text.utf8ByteSize_repr_le (by decide)).mpr (Nat.lt_trans bounded (by decide))
  have most : ¬ (Nat.repr (2 ^ 64 - 1)).utf8ByteSize ≤ 19 := by
    rw [Text.utf8ByteSize_repr_le (by decide)]
    decide
  have number (value : Nat) : (decimal value).encodedLen = (Nat.repr value).utf8ByteSize := rfl
  simp only [encodedLen, toJson, Json.encodedLen_object, Json.membersLen, number,
    List.length_cons]
  omega

theorem encodedLen_empty_small : (ToolTrace.mk [] (2 ^ 64 - 1)).encodedLen ≤ traceMaxBytes := by
  have digits : (Nat.repr (2 ^ 64 - 1)).utf8ByteSize ≤ 20 :=
    (Text.utf8ByteSize_repr_le (by decide)).mpr (by decide)
  have number (value : Nat) : (decimal value).encodedLen = (Nat.repr value).utf8ByteSize := rfl
  have calls : (JsonText.string "calls").utf8ByteSize = 7 := by decide
  have omitted : (JsonText.string "omitted_call_count").utf8ByteSize = 20 := by decide
  simp only [encodedLen, toJson, Json.encodedLen_object, Json.membersLen, number,
    Json.encodedLen_array, List.map_nil, Json.itemsLen, List.length_cons, List.length_nil, calls,
    omitted, traceMaxBytes]
  omega

end ToolTrace

/-! ## The rules -/

inductive TraceRejection where
  | tooManyCalls
  | tooLarge
  | callIdUnusable
  | argumentsTooLarge
  | argumentTooLong
  | edgeTooLarge
  | malformed
  | holdsNul
deriving DecidableEq, Repr

namespace TraceRejection

/-- The call count, named by its path, ahead of every rule of the module's own. -/
def byPrecedence : List TraceRejection :=
  [.tooManyCalls, .holdsNul, .callIdUnusable, .argumentsTooLarge, .argumentTooLong,
    .edgeTooLarge, .tooLarge]

end TraceRejection

/-- `i64::from_str`: an optional sign, then decimal digits within range. -/
def parseI64 (text : List Char) : Option Int :=
  let signed : Bool × List Char :=
    match text with
    | '-' :: digits => (true, digits)
    | '+' :: digits => (false, digits)
    | digits => (false, digits)
  if signed.2 ≠ [] ∧ signed.2.all Char.isDigit = true then
    let magnitude : Int := Nat.ofDigitChars 10 signed.2 0
    let value := if signed.1 then -magnitude else magnitude
    if inI64 value then some value else none
  else none

/-- A call id names 1 to the largest 64-bit call number, in at most 64 bytes. -/
def callNumber (callId : String) : Bool :=
  decide (callId.utf8ByteSize ≤ callIdMaxBytes) && callId.toList.all Char.isDigit &&
    (parseI64 callId.toList).any fun number => decide (firstCall ≤ number)

def leafFits (text : String) : Bool := decide (text.utf8ByteSize ≤ argsLeafMaxBytes)

def edgeFits (edge : String) : Bool :=
  decide (edge.utf8ByteSize ≤ outputEdgeMaxBytes) &&
    decide (Text.lines edge.toList ≤ outputEdgeMaxLines)

namespace ToolTraceCall

def freeOfNul (call : ToolTraceCall) : Bool :=
  nulFree call.callId && nulFree call.name && call.outputHead.all nulFree &&
    call.outputTail.all nulFree && Json.everyMember nulFree call.arguments

def argumentsFit (call : ToolTraceCall) : Bool :=
  decide ((Json.object call.arguments).encodedLen ≤ argsMaxBytes)

def argumentLeavesFit (call : ToolTraceCall) : Bool := Json.everyMember leafFits call.arguments

def edgesFit (call : ToolTraceCall) : Bool :=
  call.outputHead.all edgeFits && call.outputTail.all edgeFits

end ToolTraceCall

namespace ToolTrace

def breaks (trace : ToolTrace) : TraceRejection → Bool
  | .tooManyCalls => decide (traceMaxCalls < trace.calls.length)
  | .tooLarge => decide (traceMaxBytes < trace.encodedLen)
  | .callIdUnusable => trace.calls.any fun call => !callNumber call.callId
  | .argumentsTooLarge => trace.calls.any fun call => !call.argumentsFit
  | .argumentTooLong => trace.calls.any fun call => !call.argumentLeavesFit
  | .edgeTooLarge => trace.calls.any fun call => !call.edgesFit
  | .holdsNul => trace.calls.any fun call => !call.freeOfNul
  | .malformed => false

/-- Every bound the type declares, the highest-precedence break answering. -/
def validate (trace : ToolTrace) : Except TraceRejection Unit :=
  match TraceRejection.byPrecedence.find? trace.breaks with
  | some rejection => .error rejection
  | none => .ok ()

theorem validate_ok_iff (trace : ToolTrace) :
    trace.validate = .ok () ↔ ∀ rejection, trace.breaks rejection = false := by
  rw [validate]
  constructor
  · intro accepted rejection
    cases first : TraceRejection.byPrecedence.find? trace.breaks with
    | some found => rw [first] at accepted; exact absurd accepted nofun
    | none =>
        have all := List.find?_eq_none.mp first
        cases rejection with
        | malformed => rfl
        | _ => exact Bool.eq_false_iff.mpr (all _ (by decide))
  · intro never
    have first : TraceRejection.byPrecedence.find? trace.breaks = none := by
      rw [List.find?_eq_none]
      intro rejection _
      rw [never rejection]
      exact Bool.false_ne_true
    rw [first]

structure RowFits (call : ToolTraceCall) : Prop where
  number : callNumber call.callId = true
  arguments : call.argumentsFit = true
  leaves : call.argumentLeavesFit = true
  edges : call.edgesFit = true

theorem validate_of_fits {trace : ToolTrace} (few : trace.calls.length ≤ traceMaxCalls)
    (small : trace.encodedLen ≤ traceMaxBytes) (fit : ∀ call ∈ trace.calls, RowFits call) :
    trace.validate = .ok () ↔ ∀ call ∈ trace.calls, call.freeOfNul = true := by
  rw [validate_ok_iff]
  have none_breaks {rule : ToolTraceCall → Bool} (holds : ∀ call ∈ trace.calls, rule call = true) :
      (trace.calls.any fun call => !rule call) = false := by
    rw [List.any_eq_false]
    intro call member
    rw [holds call member]
    exact Bool.false_ne_true
  constructor
  · intro never call member
    have clean := never .holdsNul
    rw [breaks, List.any_eq_false] at clean
    simpa using clean call member
  · intro free rejection
    cases rejection with
    | tooManyCalls =>
        rw [breaks, decide_eq_false_iff_not]
        exact Nat.not_lt.mpr few
    | tooLarge =>
        rw [breaks, decide_eq_false_iff_not]
        exact Nat.not_lt.mpr small
    | callIdUnusable => exact none_breaks fun call member => (fit call member).number
    | argumentsTooLarge => exact none_breaks fun call member => (fit call member).arguments
    | argumentTooLong => exact none_breaks fun call member => (fit call member).leaves
    | edgeTooLarge => exact none_breaks fun call member => (fit call member).edges
    | malformed => rfl
    | holdsNul => exact none_breaks free

end ToolTrace

theorem parseI64_repr {n : Nat} (bounded : n < 2 ^ 63) :
    parseI64 (Nat.repr n).toList = some (n : Int) := by
  have digits : ∀ c ∈ (Nat.repr n).toList, c.isDigit = true := fun c => Text.repr_isDigit
  have value : Nat.ofDigitChars 10 (Nat.repr n).toList 0 = n := by
    rw [Nat.toList_repr, Nat.ofDigitChars_ten_toDigits]
  cases text : (Nat.repr n).toList with
  | nil =>
      rw [Nat.toList_repr] at text
      exact absurd text Nat.toDigits_ne_nil
  | cons c rest =>
      rw [text] at digits value
      have first := digits c (List.mem_cons_self ..)
      have unsigned : c ≠ '-' ∧ c ≠ '+' := by
        constructor
        · rintro rfl
          exact absurd first (by decide)
        · rintro rfl
          exact absurd first (by decide)
      have all : (c :: rest).all Char.isDigit = true := List.all_eq_true.mpr digits
      have ranged : inI64 (n : Int) = true := by
        rw [inI64_iff]
        omega
      simp [parseI64, unsigned.1, unsigned.2, all, value, ranged]

theorem callNumber_repr {n : Nat} (counted : 1 ≤ n) (bounded : n < 2 ^ 63) :
    callNumber (Nat.repr n) = true := by
  have short : (Nat.repr n).utf8ByteSize ≤ callIdMaxBytes :=
    (Text.utf8ByteSize_repr_le (by decide)).mpr (Nat.lt_trans bounded (by decide))
  have digits : (Nat.repr n).toList.all Char.isDigit = true :=
    List.all_eq_true.mpr fun c => Text.repr_isDigit
  rw [callNumber, decide_eq_true short, digits, parseI64_repr bounded]
  have first : firstCall ≤ (n : Int) := Int.ofNat_le.mpr counted
  simpa using first

theorem nulFree_repr (n : Nat) : nulFree (Nat.repr n) = true := by
  rw [nulFree, Bool.not_eq_true', Bool.eq_false_iff, ne_eq, List.contains_iff_mem]
  intro member
  exact absurd (Text.repr_isDigit member) (by decide)

end Agentsfleet.Tool
