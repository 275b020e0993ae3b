import Agentsfleet.Tool.Rows

/-!
# A run's tool trace as it grows

How a call ended, the output edges a row shows, and the rows kept within the
bounds the wire declares: past the room for a row its edges go first, then the
edges of the rows before it, and the row itself only then.
-/

set_option autoImplicit false

namespace Agentsfleet.Tool

open Agentsfleet.Core
open Agentsfleet.Context (nulFree)
open Agentsfleet.Library

structure CleanText where
  text : String
  free : nulFree text = true

structure CleanJson where
  value : Json
  free : value.everyText nulFree = true

def asU64 (count : Nat) : Nat := count % 2 ^ 64

/-- `clock::saturating_millis`, of a span in nanoseconds. -/
def saturatingMillis (span : Nat) : Nat := min (span / 1000000) (2 ^ 64 - 1)

/-- How one call ended, as its completion frame and its trace row carry it. -/
structure Outcome where
  status : ToolCallStatus
  head : Option String
  tail : Option String
  lineCount : Option Nat
  exitCode : Option Int
  elapsed : Nat

def edgeHead (output : String) : String :=
  String.ofList (Text.floor outputEdgeMaxBytes
    ((Text.splitInclusive output.toList).take outputEdgeMaxLines).flatten)

def lastLines (output : List Char) : List Char :=
  let ended := output.getLast? = some '\n'
  let body := if ended then output.dropLast else output
  (Text.untilNewline (outputEdgeMaxLines - 1) body.reverse).reverse ++ if ended then ['\n'] else []

def edgeTail (output : String) : String :=
  let tail := lastLines output.toList
  String.ofList (Text.ceil (Text.bytes tail - outputEdgeMaxBytes) tail)

namespace Outcome

/-- A call that returned `output`. -/
def ended (status : ToolCallStatus) (output : CleanText) (exitCode : Option Int) (elapsed : Nat) :
    Outcome :=
  let head := edgeHead output.text
  let tail :=
    if head.utf8ByteSize < output.text.utf8ByteSize then some (edgeTail output.text) else none
  { status := status
    head := if head = "" then none else some head
    tail := tail.filter fun tail => decide (tail ≠ "")
    lineCount := some (asU64 (Text.lines output.text.toList))
    exitCode := exitCode
    elapsed := elapsed }

def interrupted (elapsed : Nat) : Outcome := ⟨.interrupted, none, none, none, none, elapsed⟩

end Outcome

/-- `text` cut to its leaf bound, when it is longer. -/
def leaf (text : String) : Option String :=
  let cut := String.ofList (Text.floor argsLeafMaxBytes text.toList)
  if cut.utf8ByteSize < text.utf8ByteSize then some cut else none

/-- Every key and string cut to its leaf bound, the whole emptied when it still
encodes past its own; arguments that are not an object carry nothing. -/
def boundedArguments (arguments : CleanJson) : Members :=
  match arguments.value with
  | .object fields =>
      match (Json.object fields).rewrite leaf with
      | .object bounded => if (Json.object bounded).encodedLen ≤ argsMaxBytes then bounded else []
      | _ => []
  | _ => []

structure Trace where
  calls : List ToolTraceCall
  omitted : Nat
  room : Nat

namespace Trace

def capacity : Nat := traceMaxBytes - (ToolTrace.mk [] (2 ^ 64 - 1)).encodedLen

def empty : Trace := ⟨[], 0, capacity⟩

/-- The edges of the rows before a row that costs `cost`, dropped until it fits. -/
def reclaim (cost : Nat) : Nat → List ToolTraceCall → Nat × List ToolTraceCall
  | room, [] => (room, [])
  | room, previous :: rest =>
      if cost ≤ room then (room, previous :: rest)
      else
        let left := reclaim cost (room + (previous.encodedLen - previous.bare.encodedLen)) rest
        (left.1, previous.bare :: left.2)

/-- The row of call `number`. -/
def row (number : Nat) (name : String) (arguments : Members) (outcome : Outcome) : ToolTraceCall :=
  { callId := Nat.repr number
    name := name
    arguments := arguments
    status := outcome.status
    outputHead := outcome.head
    outputTail := outcome.tail
    outputLineCount := outcome.lineCount
    exitCode := outcome.exitCode
    durationMs := saturatingMillis outcome.elapsed }

def joint (calls : List ToolTraceCall) : Nat := if calls.isEmpty then 0 else 1

/-- A row as it goes on: without its edges where they leave it no room. -/
def fitted (t : Trace) (whole : ToolTraceCall) : ToolTraceCall :=
  if t.room < whole.encodedLen + joint t.calls then whole.bare else whole

def push (t : Trace) (number : Nat) (name : String) (arguments : Members) (outcome : Outcome) :
    Trace :=
  if traceMaxCalls ≤ t.calls.length then { t with omitted := t.omitted + 1 }
  else
    let row := t.fitted (row number name arguments outcome)
    let cost := row.encodedLen + joint t.calls
    let left := reclaim cost t.room t.calls
    if left.1 < cost then { calls := left.2, omitted := t.omitted + 1, room := left.1 }
    else { calls := left.2 ++ [row], omitted := t.omitted, room := left.1 - cost }

def finish (t : Trace) : ToolTrace := ⟨t.calls, t.omitted⟩

end Trace

/-! ## What is cut fits -/

theorem edgeHead_fits (output : String) : edgeFits (edgeHead output) = true := by
  rw [edgeFits, edgeHead, Text.utf8ByteSize_ofList, String.toList_ofList, Bool.and_eq_true,
    decide_eq_true_eq, decide_eq_true_eq]
  exact ⟨Text.bytes_floor_le _ _, Nat.le_trans (Text.lines_prefix_le (Text.floor_prefix _ _))
    (Text.lines_take_le _ _)⟩

theorem lines_lastLines_le (output : List Char) :
    Text.lines (lastLines output) ≤ outputEdgeMaxLines := by
  have counted (body : List Char) :
      (Text.untilNewline (outputEdgeMaxLines - 1) body.reverse).reverse.count '\n' ≤ 4 := by
    rw [List.count_reverse]
    exact Text.count_untilNewline _ _
  rw [lastLines]
  by_cases ended : output.getLast? = some '\n'
  · rw [if_pos ended, if_pos ended, Text.lines_ended]
    exact Nat.succ_le_succ (counted _)
  · rw [if_neg ended, if_neg ended, List.append_nil]
    exact Nat.le_trans (Text.lines_le_count _) (Nat.succ_le_succ (counted _))

theorem edgeTail_fits (output : String) : edgeFits (edgeTail output) = true := by
  rw [edgeFits, edgeTail, Text.utf8ByteSize_ofList, String.toList_ofList, Bool.and_eq_true,
    decide_eq_true_eq, decide_eq_true_eq]
  have cut := Text.bytes_ceil_le (Text.bytes (lastLines output.toList) - outputEdgeMaxBytes)
    (lastLines output.toList)
  exact ⟨by omega, Nat.le_trans (Text.lines_suffix_le (Text.ceil_suffix _ _))
    (lines_lastLines_le _)⟩

theorem nulFree_of_subset {text : String} {cut : List Char} (clean : nulFree text = true)
    (inside : ∀ c ∈ cut, c ∈ text.toList) : nulFree (String.ofList cut) = true := by
  rw [nulFree, Bool.not_eq_true', Bool.eq_false_iff, ne_eq, List.contains_iff_mem] at clean ⊢
  rw [String.toList_ofList]
  exact fun member => clean (inside _ member)

theorem edgeHead_free {output : String} (clean : nulFree output = true) :
    nulFree (edgeHead output) = true := by
  refine nulFree_of_subset clean ?_
  intro c member
  exact (Text.take_splitInclusive_prefix _ _).subset ((Text.floor_prefix _ _).subset member)

theorem lastLines_subset (output : List Char) : ∀ c ∈ lastLines output, c ∈ output := by
  intro c member
  rw [lastLines] at member
  by_cases ended : output.getLast? = some '\n'
  · rw [if_pos ended, if_pos ended, List.mem_append, List.mem_reverse, List.mem_singleton] at member
    rcases member with inside | rfl
    · have body := (Text.untilNewline_prefix _ _).subset inside
      exact List.dropLast_subset _ (List.mem_reverse.mp body)
    · exact List.mem_of_getLast? ended
  · rw [if_neg ended, if_neg ended, List.append_nil, List.mem_reverse] at member
    exact List.mem_reverse.mp ((Text.untilNewline_prefix _ _).subset member)

theorem edgeTail_free {output : String} (clean : nulFree output = true) :
    nulFree (edgeTail output) = true := by
  refine nulFree_of_subset clean ?_
  intro c member
  exact lastLines_subset _ c ((Text.ceil_suffix _ _).subset member)

theorem leaf_fits (text : String) : leafFits ((leaf text).getD text) = true := by
  have bound := Text.bytes_floor_le argsLeafMaxBytes text.toList
  rw [leafFits, decide_eq_true_eq, leaf]
  by_cases long : (String.ofList (Text.floor argsLeafMaxBytes text.toList)).utf8ByteSize <
      text.utf8ByteSize
  · rw [if_pos long, Option.getD_some, Text.utf8ByteSize_ofList]
    exact bound
  · rw [if_neg long, Option.getD_none]
    rw [Text.utf8ByteSize_ofList] at long
    omega

theorem leaf_free (text : String) (clean : nulFree text = true) :
    nulFree ((leaf text).getD text) = true := by
  rw [leaf]
  split
  · exact nulFree_of_subset clean fun c member => (Text.floor_prefix _ _).subset member
  · exact clean

theorem boundedArguments_fit (arguments : CleanJson) :
    (Json.object (boundedArguments arguments)).encodedLen ≤ argsMaxBytes ∧
      Json.everyMember leafFits (boundedArguments arguments) = true ∧
      Json.everyMember nulFree (boundedArguments arguments) = true := by
  have none_left : (Json.object []).encodedLen ≤ argsMaxBytes := by
    rw [Json.encodedLen_object]
    decide
  obtain ⟨value, free⟩ := arguments
  rw [boundedArguments]
  cases value with
  | object fields =>
      have short := Json.everyText_rewrite (fun text _ => leaf_fits text) (.object fields)
        (Json.everyText_always _)
      have clean := Json.everyText_rewrite leaf_free (.object fields) free
      simp only [Json.rewrite] at short clean ⊢
      by_cases fits :
          (Json.object (Members.collect (Json.rewriteMembers leaf fields) [])).encodedLen ≤
            argsMaxBytes
      · rw [if_pos fits]
        exact ⟨fits, short, clean⟩
      · rw [if_neg fits]
        exact ⟨none_left, rfl, rfl⟩
  | _ => exact ⟨none_left, rfl, rfl⟩

/-- What a call's end hands a row to show. -/
structure Outcome.Fits (outcome : Outcome) : Prop where
  head : outcome.head.all edgeFits = true
  tail : outcome.tail.all edgeFits = true
  headFree : outcome.head.all nulFree = true
  tailFree : outcome.tail.all nulFree = true

theorem Outcome.ended_fits (status : ToolCallStatus) (output : CleanText) (exitCode : Option Int)
    (elapsed : Nat) : (Outcome.ended status output exitCode elapsed).Fits := by
  have shown {good : String → Bool} (holds : good (edgeHead output.text) = true) :
      (Outcome.ended status output exitCode elapsed).head.all good = true := by
    simp only [Outcome.ended]
    by_cases none_left : edgeHead output.text = ""
    · simp [none_left]
    · simpa [Option.filter_some, none_left] using holds
  have last {good : String → Bool} (holds : good (edgeTail output.text) = true) :
      (Outcome.ended status output exitCode elapsed).tail.all good = true := by
    simp only [Outcome.ended]
    by_cases more : (edgeHead output.text).utf8ByteSize < output.text.utf8ByteSize
    · rw [if_pos more]
      by_cases none_left : edgeTail output.text = ""
      · simp [none_left]
      · simpa [Option.filter_some, none_left] using holds
    · rw [if_neg more]
      rfl
  exact ⟨shown (edgeHead_fits _), last (edgeTail_fits _), shown (edgeHead_free output.free),
    last (edgeTail_free output.free)⟩

theorem Outcome.interrupted_fits (elapsed : Nat) : (Outcome.interrupted elapsed).Fits :=
  ⟨rfl, rfl, rfl, rfl⟩

/-! ## What a trace keeps -/

theorem rowsLen_append (calls : List ToolTraceCall) (row : ToolTraceCall) :
    ToolTrace.rowsLen (calls ++ [row]) =
      ToolTrace.rowsLen calls + (row.encodedLen + Trace.joint calls) := by
  rw [ToolTrace.rowsLen, ToolTrace.rowsLen, List.map_append, Json.itemsLen_append]
  cases calls with
  | nil => rfl
  | cons first rest =>
      have comma : Trace.joint (first :: rest) = 1 := rfl
      simp only [List.map_cons, List.map_nil, Json.itemsLen, List.length_append, List.length_cons,
        List.length_nil, ToolTraceCall.encodedLen, comma]
      omega

theorem ToolTraceCall.RowFits.bare {call : ToolTraceCall} (fits : ToolTrace.RowFits call) :
    ToolTrace.RowFits call.bare :=
  ⟨fits.number, fits.arguments, fits.leaves, rfl⟩

theorem ToolTraceCall.freeOfNul_bare {call : ToolTraceCall} (free : call.freeOfNul = true) :
    call.bare.freeOfNul = true := by
  simp only [ToolTraceCall.freeOfNul, Bool.and_eq_true] at free ⊢
  obtain ⟨⟨⟨⟨id, name⟩, _⟩, _⟩, arguments⟩ := free
  exact ⟨⟨⟨⟨id, name⟩, rfl⟩, rfl⟩, arguments⟩

namespace Trace

/-- Reclaiming edges moves bytes from the rows to the room, and drops no row. -/
theorem reclaim_spec (cost room : Nat) (calls : List ToolTraceCall) :
    (reclaim cost room calls).1 + ToolTrace.rowsLen (reclaim cost room calls).2 =
        room + ToolTrace.rowsLen calls ∧
      (reclaim cost room calls).2.length = calls.length := by
  induction calls generalizing room with
  | nil => exact ⟨rfl, rfl⟩
  | cons previous rest ih =>
      rw [reclaim]
      by_cases fits : cost ≤ room
      · rw [if_pos fits]
        exact ⟨rfl, rfl⟩
      · rw [if_neg fits]
        obtain ⟨moved, same⟩ :=
          ih (room + (previous.encodedLen - previous.bare.encodedLen))
        have shorter := previous.encodedLen_bare_le
        simp only [ToolTrace.rowsLen, List.map_cons, Json.itemsLen, List.length_cons] at moved ⊢
        rw [same] at moved ⊢
        simp only [ToolTraceCall.encodedLen] at moved shorter ⊢
        refine ⟨?_, trivial⟩
        omega

theorem forall_reclaim {good : ToolTraceCall → Prop} (bare : ∀ call, good call → good call.bare)
    (cost room : Nat) {calls : List ToolTraceCall} (all : ∀ call ∈ calls, good call) :
    ∀ call ∈ (reclaim cost room calls).2, good call := by
  induction calls generalizing room with
  | nil => exact all
  | cons previous rest ih =>
      obtain ⟨first, others⟩ := List.forall_mem_cons.mp all
      rw [reclaim]
      by_cases fits : cost ≤ room
      · rw [if_pos fits]
        exact all
      · rw [if_neg fits]
        exact List.forall_mem_cons.mpr ⟨bare _ first, ih _ others⟩

/-- What holds of a trace after `pushes` calls. -/
structure Sound (t : Trace) (pushes : Nat) : Prop where
  few : t.calls.length ≤ traceMaxCalls
  counted : t.calls.length + t.omitted = pushes
  room : t.room + ToolTrace.rowsLen t.calls = capacity
  fit : ∀ call ∈ t.calls, ToolTrace.RowFits call

theorem sound_empty : empty.Sound 0 := ⟨Nat.zero_le _, rfl, rfl, nofun⟩

theorem forall_push {good : ToolTraceCall → Prop} (bare : ∀ call, good call → good call.bare)
    {t : Trace} (all : ∀ call ∈ t.calls, good call) {number : Nat} {name : String}
    {arguments : Members} {outcome : Outcome} (pushed : good (row number name arguments outcome)) :
    ∀ call ∈ (t.push number name arguments outcome).calls, good call := by
  have added : good (t.fitted (row number name arguments outcome)) := by
    rw [fitted]
    split
    · exact bare _ pushed
    · exact pushed
  rw [push]
  by_cases full : traceMaxCalls ≤ t.calls.length
  · rw [if_pos full]
    exact all
  · rw [if_neg full]
    dsimp only
    split
    · exact forall_reclaim bare _ _ all
    · intro call member
      rcases List.mem_append.mp member with held | new
      · exact forall_reclaim bare _ _ all call held
      · exact List.mem_singleton.mp new ▸ added

theorem Sound.push {t : Trace} {pushes : Nat} (sound : t.Sound pushes) {number : Nat}
    {name : String} {arguments : Members} {outcome : Outcome}
    (fits : ToolTrace.RowFits (row number name arguments outcome)) :
    (t.push number name arguments outcome).Sound (pushes + 1) := by
  have few := sound.few
  have counted := sound.counted
  have before := sound.room
  have bare : ∀ call, ToolTrace.RowFits call → ToolTrace.RowFits call.bare :=
    fun _ held => ToolTraceCall.RowFits.bare held
  refine ⟨?_, ?_, ?_, forall_push bare sound.fit fits⟩
  all_goals
    rw [Trace.push]
    by_cases full : traceMaxCalls ≤ t.calls.length
    · rw [if_pos full]
      dsimp only
      omega
    · rw [if_neg full]
      dsimp only
      generalize t.fitted (row number name arguments outcome) = added
      obtain ⟨moved, same⟩ := reclaim_spec (added.encodedLen + joint t.calls) t.room t.calls
      generalize reclaim (added.encodedLen + joint t.calls) t.room t.calls = left at moved same ⊢
      have joints : joint left.2 = joint t.calls := by
        have alike : left.2.isEmpty = t.calls.isEmpty := by
          rw [Bool.eq_iff_iff, List.isEmpty_iff_length_eq_zero, List.isEmpty_iff_length_eq_zero,
            same]
        rw [joint, joint, alike]
      have joined := rowsLen_append left.2 added
      rw [joints] at joined
      by_cases dear : left.1 < added.encodedLen + joint t.calls
      · rw [if_pos dear]
        dsimp only
        omega
      · rw [if_neg dear]
        simp only [List.length_append, List.length_singleton]
        omega

theorem Sound.encodes {t : Trace} {pushes : Nat} (sound : t.Sound pushes)
    (counted : pushes < 2 ^ 64) : t.finish.encodedLen ≤ traceMaxBytes := by
  have fewer : t.omitted < 2 ^ 64 := by
    have all := sound.counted
    omega
  have frame := ToolTrace.encodedLen_empty_le fewer
  have room := sound.room
  have most := ToolTrace.encodedLen_empty_small
  rw [capacity] at room
  rw [ToolTrace.encodedLen_eq, finish]
  simp only
  omega

end Trace

end Agentsfleet.Tool
