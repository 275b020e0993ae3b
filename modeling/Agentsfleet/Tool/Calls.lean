import Agentsfleet.Tool.Ledger
import Mathlib.Algebra.GroupWithZero.Nat
import Mathlib.Data.List.Perm.Basic
import Mathlib.Data.List.Range

/-!
# The calls of a run and what each leaves behind

The ledger with the frames it sends and the books it hands back.  A call is told
by how many the run opened before it: its number in the book starts over when the
book is taken, which a call still open then outlives.
-/

set_option autoImplicit false

namespace Agentsfleet.Tool

open Agentsfleet.Core
open Agentsfleet.Library

/-- `clock::saturating_millis_signed`, of a span in nanoseconds. -/
def saturatingMillisSigned (span : Nat) : Nat := min (span / 1000000) (2 ^ 63 - 1)

inductive CallFrame where
  | toolCallStarted (name argsRedacted callId : String)
  | toolCallCompleted (name : String) (ms : Nat) (callId : String) (status : ToolCallStatus)
      (outputHead outputTail : Option String) (outputLineCount : Option Nat)
      (exitCode : Option Int)

def CallFrame.isStart : CallFrame → Bool
  | .toolCallStarted _ _ _ => true
  | .toolCallCompleted _ _ _ _ _ _ _ _ => false

def CallFrame.callId : CallFrame → String
  | .toolCallStarted _ _ callId => callId
  | .toolCallCompleted _ _ callId _ _ _ _ _ => callId

/-- A run's calls.  `tokens` tells which call each of the ledger's open ones is;
`rows` and `made` keep whose row was pushed and whose record was made. -/
structure Desk where
  ledger : Ledger
  tokens : List Nat
  taken : Nat
  frames : List (Nat × CallFrame)
  rows : List Nat
  made : List (Nat × ToolCallRecord)
  handed : List (ToolTrace × List ToolCallRecord)

inductive DeskEvent (ErrorCode : Type) where
  | call (event : CallEvent ErrorCode)
  /-- The run takes what its calls have left so far. -/
  | finished

namespace Desk

variable {ErrorCode : Type}

def new : Desk := ⟨Ledger.new, [], 0, [], [], [], []⟩

def startFrame (call : Opened) : CallFrame :=
  .toolCallStarted call.name (Json.object (boundedArguments call.arguments)).encode
    (Nat.repr call.number)

def endFrame (call : Opened) (outcome : Outcome) : CallFrame :=
  .toolCallCompleted call.name (saturatingMillisSigned outcome.elapsed) (Nat.repr call.number)
    outcome.status outcome.head outcome.tail outcome.lineCount outcome.exitCode

def called (s : Desk) (name : String) (arguments : CleanJson) : Desk :=
  { s with
    ledger := s.ledger.call name arguments
    tokens := s.tokens ++ [s.taken]
    taken := s.taken + 1
    frames := s.frames ++ [(s.taken, startFrame ⟨s.ledger.calls + 1, name, arguments⟩)] }

/-- `end`: the completion frame and the trace row of a call no longer open. -/
def finishCall (s : Desk) (which token : Nat) (call : Opened) (outcome : Outcome) : Desk :=
  { s with
    ledger := s.ledger.finishCall which call outcome
    tokens := s.tokens.eraseIdx which
    frames := s.frames ++ [(token, endFrame call outcome)]
    rows := s.rows ++ [token] }

def closed (s : Desk) (which : Nat) (output : ToolOutput ErrorCode) (elapsed : Nat) : Desk :=
  match s.ledger.opened[which]?, s.tokens[which]? with
  | some call, some token =>
      let outcome := Outcome.ended (Ledger.status output) output.text output.exitCode elapsed
      let full := record (UInt64.ofNat call.number) call.arguments output.text
      let ended := s.finishCall which token call outcome
      { ended with ledger := ended.ledger.hold full, made := ended.made ++ [(token, full)] }
  | _, _ => s

def dropped (s : Desk) (which elapsed : Nat) : Desk :=
  match s.ledger.opened[which]?, s.tokens[which]? with
  | some call, some token => s.finishCall which token call (Outcome.interrupted elapsed)
  | _, _ => s

/-- `finish`: the book is taken, the calls still open stay so. -/
def finished (s : Desk) : Desk :=
  { s with
    ledger := { Ledger.new with opened := s.ledger.opened }
    handed := s.handed ++ [(s.ledger.trace.finish, s.ledger.records)] }

def step (s : Desk) : DeskEvent ErrorCode → Desk
  | .call (.called name arguments) => s.called name arguments
  | .call (.closed which output elapsed) => s.closed which output elapsed
  | .call (.dropped which elapsed) => s.dropped which elapsed
  | .finished => s.finished

/-! ## What a desk has sent and handed back -/

def sent (start : Bool) (frames : List (Nat × CallFrame)) : List Nat :=
  (frames.filter fun frame => frame.2.isStart == start).map Prod.fst

def told (trace : ToolTrace) : Nat := trace.calls.length + trace.omittedCallCount

def toldSoFar (s : Desk) : Nat :=
  (s.handed.map fun book => told book.1).sum + told s.ledger.trace.finish

def records (s : Desk) : List ToolCallRecord :=
  s.handed.flatMap Prod.snd ++ s.ledger.records

def bytes (records : List ToolCallRecord) : Nat := (records.map ToolCallRecord.byteCount).sum

theorem sent_append (start : Bool) (frames : List (Nat × CallFrame)) (frame : Nat × CallFrame) :
    sent start (frames ++ [frame]) =
      sent start frames ++ if frame.2.isStart = start then [frame.1] else [] := by
  rw [sent, List.filter_append, List.map_append, ← sent]
  by_cases same : frame.2.isStart = start
  · rw [if_pos same, List.filter_cons_of_pos (by simpa using same)]
    rfl
  · rw [if_neg same, List.filter_cons_of_neg (by simpa using same)]
    rfl

/-- A pushed row is listed or counted, also where it costs other rows their edges. -/
theorem told_push (t : Trace) (number : Nat) (name : String) (arguments : Members)
    (outcome : Outcome) :
    told (t.push number name arguments outcome).finish = told t.finish + 1 := by
  simp only [told, Trace.finish]
  rw [Trace.push]
  by_cases full : traceMaxCalls ≤ t.calls.length
  · rw [if_pos full]
    dsimp only
    omega
  · rw [if_neg full]
    dsimp only
    obtain ⟨_, same⟩ := Trace.reclaim_spec
      ((t.fitted (Trace.row number name arguments outcome)).encodedLen + Trace.joint t.calls)
      t.room t.calls
    split
    · dsimp only
      omega
    · dsimp only
      rw [List.length_append, List.length_singleton]
      omega

/-! ## What holds of a run's calls -/

structure Kept (s : Desk) : Prop where
  /-- One start frame a call, in the order the calls were opened. -/
  started : sent true s.frames = List.range s.taken
  /-- One end frame and one row a call that ended. -/
  ended : sent false s.frames = s.rows
  once : (s.rows ++ s.tokens).Perm (List.range s.taken)
  counted : s.toldSoFar = s.rows.length
  /-- At most one record a call, from the calls that returned. -/
  made : (s.made.map Prod.fst).Sublist s.rows
  held : s.records.Sublist (s.made.map Prod.snd)
  budget : s.ledger.spent = bytes s.ledger.records ∧ s.ledger.spent ≤ detailEventMaxBytes
  handed : ∀ book ∈ s.handed, bytes book.2 ≤ detailEventMaxBytes

structure Announced (s : Desk) : Prop where
  aligned : s.tokens.length = s.ledger.opened.length
  opened : ∀ (which token : Nat) (call : Opened), s.tokens[which]? = some token →
    s.ledger.opened[which]? = some call → (token, startFrame call) ∈ s.frames
  /-- An end frame carries the number its call was announced under. -/
  paired : ∀ frame ∈ s.frames, frame.2.isStart = false →
    ∃ start ∈ s.frames, start.2.isStart = true ∧ start.1 = frame.1 ∧
      start.2.callId = frame.2.callId

theorem kept_new : new.Kept where
  started := rfl
  ended := rfl
  once := List.Perm.refl _
  counted := rfl
  made := List.Sublist.slnil
  held := List.Sublist.slnil
  budget := ⟨rfl, Nat.zero_le _⟩
  handed := nofun

theorem announced_new : new.Announced := ⟨rfl, nofun, nofun⟩

namespace Kept

variable {s : Desk}

theorem called (kept : s.Kept) (name : String) (arguments : CleanJson) :
    (s.called name arguments).Kept := by
  refine { kept with started := ?_, ended := ?_, once := ?_ }
  · rw [Desk.called, sent_append, kept.started, List.range_succ]
    rfl
  · rw [Desk.called, sent_append, kept.ended]
    exact List.append_nil _
  · dsimp only [Desk.called]
    rw [List.range_succ, ← List.append_assoc]
    exact kept.once.append_right _

theorem finishCall (kept : s.Kept) {which token : Nat} {call : Opened}
    (found : s.tokens[which]? = some token) (outcome : Outcome) :
    (s.finishCall which token call outcome).Kept := by
  obtain ⟨inside, here⟩ := List.getElem?_eq_some_iff.mp found
  refine { kept with started := ?_, ended := ?_, once := ?_, counted := ?_, made := ?_ }
  · rw [Desk.finishCall, sent_append, kept.started]
    exact List.append_nil _
  · rw [Desk.finishCall, sent_append, kept.ended]
    rfl
  · dsimp only [Desk.finishCall]
    -- The call moves from the open ones to the ended.
    have moved : (token :: s.tokens.eraseIdx which).Perm s.tokens := by
      rw [← here]
      exact List.getElem_cons_eraseIdx_perm inside
    rw [List.append_assoc, List.singleton_append]
    exact (moved.append_left _).trans kept.once
  · have before := kept.counted
    rw [toldSoFar] at before ⊢
    dsimp only [Desk.finishCall, Ledger.finishCall]
    rw [told_push, List.length_append, List.length_singleton]
    omega
  · exact kept.made.trans (List.sublist_append_left _ _)

theorem hold (kept : s.Kept) (token : Nat) (full : ToolCallRecord)
    (fresh : (s.made.map Prod.fst ++ [token]).Sublist s.rows) :
    ({ s with ledger := s.ledger.hold full, made := s.made ++ [(token, full)] } : Desk).Kept := by
  obtain ⟨spent, within⟩ := kept.budget
  have same : (s.ledger.hold full).trace = s.ledger.trace := by
    rw [Ledger.hold]
    split
    · rfl
    · rfl
  refine { kept with counted := ?_, made := ?_, held := ?_, budget := ?_ }
  · rw [toldSoFar, same]
    exact kept.counted
  · rw [List.map_append]
    exact fresh
  · rw [List.map_append, records]
    dsimp only
    rw [Ledger.hold]
    split
    · rw [← List.append_assoc]
      exact kept.held.append (List.Sublist.refl _)
    · exact kept.held.trans (List.sublist_append_left _ _)
  · dsimp only
    rw [Ledger.hold]
    split
    next fits =>
      refine ⟨?_, fits⟩
      dsimp only
      rw [spent, bytes, bytes, List.map_append, List.sum_append]
      rfl
    next => exact ⟨spent, within⟩

theorem finished (kept : s.Kept) : s.finished.Kept := by
  obtain ⟨spent, within⟩ := kept.budget
  refine { kept with counted := ?_, held := ?_, budget := ⟨rfl, Nat.zero_le _⟩, handed := ?_ }
  · have before := kept.counted
    have nothing : told Ledger.new.trace.finish = 0 := rfl
    rw [toldSoFar] at before ⊢
    dsimp only [Desk.finished]
    rw [nothing, List.map_append, List.sum_append, List.map_singleton, List.sum_singleton]
    omega
  · have before := kept.held
    rw [records] at before ⊢
    dsimp only [Desk.finished, Ledger.new]
    rw [List.flatMap_append, List.append_nil]
    simpa using before
  · intro book member
    rcases List.mem_append.mp member with before | last
    · exact kept.handed book before
    · rw [List.mem_singleton.mp last, ← spent]
      exact within

theorem step (kept : s.Kept) (event : DeskEvent ErrorCode) : (s.step event).Kept := by
  cases event with
  | finished => exact kept.finished
  | call event =>
      cases event with
      | called name arguments => exact kept.called name arguments
      | closed which output elapsed =>
          rw [Desk.step, Desk.closed]
          split
          next call token _ found =>
            refine (kept.finishCall found _).hold token _ ?_
            exact kept.made.append (List.Sublist.refl _)
          next => exact kept
      | dropped which elapsed =>
          rw [Desk.step, Desk.dropped]
          split
          next call token _ found => exact kept.finishCall found _
          next => exact kept

end Kept

namespace Announced

variable {s : Desk}

theorem called (announced : s.Announced) (name : String) (arguments : CleanJson) :
    (s.called name arguments).Announced := by
  have aligned := announced.aligned
  refine ⟨?_, ?_, ?_⟩
  · dsimp only [Desk.called, Ledger.call]
    rw [List.length_append, List.length_append, aligned]
    rfl
  · intro which token call here found
    dsimp only [Desk.called, Ledger.call] at here found ⊢
    by_cases before : which < s.tokens.length
    · rw [List.getElem?_append_left before] at here
      rw [List.getElem?_append_left (aligned ▸ before)] at found
      exact List.mem_append_left _ (announced.opened which token call here found)
    · have after : s.tokens.length ≤ which := Nat.not_lt.mp before
      rw [List.getElem?_append_right after, List.getElem?_singleton] at here
      rw [List.getElem?_append_right (aligned ▸ after), ← aligned,
        List.getElem?_singleton] at found
      by_cases last : which - s.tokens.length = 0
      · rw [if_pos last, Option.some.injEq] at here found
        rw [← here, ← found]
        exact List.mem_append_right _ (List.mem_singleton.mpr rfl)
      · rw [if_neg last] at here
        nomatch here
  · intro frame member ends
    rcases List.mem_append.mp member with before | new
    · obtain ⟨start, sent, same⟩ := announced.paired frame before ends
      exact ⟨start, List.mem_append_left _ sent, same⟩
    · rw [List.mem_singleton.mp new] at ends
      nomatch ends

theorem finishCall (announced : s.Announced) {which token : Nat} {call : Opened}
    (found : s.ledger.opened[which]? = some call) (here : s.tokens[which]? = some token)
    (outcome : Outcome) : (s.finishCall which token call outcome).Announced := by
  have aligned := announced.aligned
  obtain ⟨inside, _⟩ := List.getElem?_eq_some_iff.mp here
  refine ⟨?_, ?_, ?_⟩
  · dsimp only [Desk.finishCall, Ledger.finishCall]
    rw [List.length_eraseIdx_of_lt inside, List.length_eraseIdx_of_lt (aligned ▸ inside), aligned]
  · intro other token call there open_
    dsimp only [Desk.finishCall, Ledger.finishCall] at there open_ ⊢
    rw [List.getElem?_eraseIdx] at there open_
    split at there
    next early =>
      rw [if_pos early] at open_
      exact List.mem_append_left _ (announced.opened other token call there open_)
    next late =>
      rw [if_neg late] at open_
      exact List.mem_append_left _ (announced.opened (other + 1) token call there open_)
  · intro frame member ends
    rcases List.mem_append.mp member with before | new
    · obtain ⟨start, sent, same⟩ := announced.paired frame before ends
      exact ⟨start, List.mem_append_left _ sent, same⟩
    · rw [List.mem_singleton.mp new]
      exact ⟨(token, startFrame call),
        List.mem_append_left _ (announced.opened which token call here found), rfl, rfl, rfl⟩

theorem hold (announced : s.Announced) (full : ToolCallRecord)
    (made : List (Nat × ToolCallRecord)) :
    ({ s with ledger := s.ledger.hold full, made := made } : Desk).Announced := by
  have same : (s.ledger.hold full).opened = s.ledger.opened := by
    rw [Ledger.hold]
    split
    · rfl
    · rfl
  refine ⟨?_, ?_, announced.paired⟩
  · dsimp only
    rw [same]
    exact announced.aligned
  · dsimp only
    rw [same]
    exact announced.opened

theorem step (announced : s.Announced) (event : DeskEvent ErrorCode) :
    (s.step event).Announced := by
  cases event with
  | finished => exact ⟨announced.aligned, announced.opened, announced.paired⟩
  | call event =>
      cases event with
      | called name arguments => exact announced.called name arguments
      | closed which output elapsed =>
          rw [Desk.step, Desk.closed]
          split
          next call token found here =>
            exact (announced.finishCall found here _).hold _ _
          next => exact announced
      | dropped which elapsed =>
          rw [Desk.step, Desk.dropped]
          split
          next call token found here => exact announced.finishCall found here _
          next => exact announced

end Announced

/-! ## Whole runs -/

theorem run_kept {s : Desk} (kept : s.Kept) (announced : s.Announced)
    (events : List (DeskEvent ErrorCode)) :
    (Run.final step s events).Kept ∧ (Run.final step s events).Announced := by
  induction events generalizing s with
  | nil => exact ⟨kept, announced⟩
  | cons event rest ih => exact ih (kept.step event) (announced.step event)

def abandoned (s : Desk) (elapsed : Nat) : List (DeskEvent ErrorCode) :=
  List.replicate s.tokens.length (.call (.dropped 0 elapsed))

theorem none_open (s : Desk) (announced : s.Announced) (elapsed : Nat) :
    (Run.final (@step ErrorCode) s (s.abandoned elapsed)).tokens = [] ∧
      (Run.final (@step ErrorCode) s (s.abandoned elapsed)).taken = s.taken := by
  rw [abandoned]
  generalize counted : s.tokens.length = count
  induction count generalizing s with
  | zero => exact ⟨List.eq_nil_of_length_eq_zero counted, rfl⟩
  | succ count ih =>
      have some_open : 0 < s.tokens.length := by omega
      have opened : 0 < s.ledger.opened.length := announced.aligned ▸ some_open
      have first : s.step (.call (.dropped 0 elapsed) : DeskEvent ErrorCode) =
          s.finishCall 0 s.tokens[0] s.ledger.opened[0] (Outcome.interrupted elapsed) := by
        rw [step, dropped, List.getElem?_eq_getElem some_open, List.getElem?_eq_getElem opened]
      have fewer : (s.step (.call (.dropped 0 elapsed) : DeskEvent ErrorCode)).tokens.length =
          count := by
        rw [first]
        dsimp only [finishCall]
        rw [List.length_eraseIdx_of_lt some_open, counted]
        rfl
      obtain ⟨closed, same⟩ := ih _ (announced.step (.call (.dropped 0 elapsed))) fewer
      refine ⟨closed, same.trans ?_⟩
      rw [first]
      rfl

/-- What a run's calls leave behind, whenever it is looked at: ended once each when
the ones still open are dropped with the run. -/
structure Ledgered (s : Desk) : Prop where
  kept : s.Kept
  announced : s.Announced
  settled : ∀ elapsed : Nat,
    (Run.final (@step Empty) s (s.abandoned elapsed)).rows.Perm (List.range s.taken)

/-- Over any calls opened and ended in any order and books taken at any time. -/
theorem calls_ledgered (events : List (DeskEvent ErrorCode)) :
    (Run.final step new events).Ledgered := by
  obtain ⟨kept, announced⟩ := run_kept kept_new announced_new events
  refine ⟨kept, announced, ?_⟩
  intro elapsed
  obtain ⟨none_left, same⟩ := @none_open Empty _ announced elapsed
  have settled :=
    (run_kept kept announced (@abandoned Empty (Run.final step new events) elapsed)).1.once
  rwa [none_left, List.append_nil, same] at settled

/-! ## What is left out -/

def omitted (s : Desk) : Nat :=
  (s.handed.map fun book => book.1.omittedCallCount).sum + s.ledger.trace.omitted

def leftOut (s : Desk) : Nat := s.made.length - s.records.length

theorem ledger_step {s : Desk} (announced : s.Announced) (event : CallEvent ErrorCode) :
    (s.step (.call event)).ledger = s.ledger.step event := by
  have alike (which : Nat) : s.ledger.opened[which]? = none ↔ s.tokens[which]? = none := by
    rw [List.getElem?_eq_none_iff, List.getElem?_eq_none_iff, announced.aligned]
  cases event with
  | called name arguments => rfl
  | closed which output elapsed =>
      rw [step, closed, Ledger.step, Ledger.close]
      cases found : s.ledger.opened[which]? with
      | none => rfl
      | some call =>
          cases here : s.tokens[which]? with
          | none => rw [(alike which).mpr here] at found; cases found
          | some token => rfl
  | dropped which elapsed =>
      rw [step, dropped, Ledger.step, Ledger.drop]
      cases found : s.ledger.opened[which]? with
      | none => rfl
      | some call =>
          cases here : s.tokens[which]? with
          | none => rw [(alike which).mpr here] at found; cases found
          | some token => rfl

theorem ledger_run {s : Desk} (announced : s.Announced) (events : List (CallEvent ErrorCode)) :
    (Run.final step s (events.map .call)).ledger = Run.final Ledger.step s.ledger events := by
  induction events generalizing s with
  | nil => rfl
  | cons event rest ih =>
      rw [List.map_cons, Run.final, Run.final, ih (announced.step _), ledger_step announced]

theorem handed_run (s : Desk) (events : List (CallEvent ErrorCode)) :
    (Run.final step s (events.map .call)).handed = s.handed := by
  induction events generalizing s with
  | nil => rfl
  | cons event rest ih =>
      rw [List.map_cons, Run.final, ih]
      cases event with
      | called name arguments => rfl
      | closed which output elapsed =>
          rw [step, closed]
          split
          · rfl
          · rfl
      | dropped which elapsed =>
          rw [step, dropped]
          split
          · rfl
          · rfl

theorem ok_nulFree : Context.nulFree "ok" = true := by decide

theorem no_arguments_nulFree : (Json.object []).everyText Context.nulFree = true := rfl

def answer : List (CallEvent Empty) :=
  [.called "update_plan" ⟨.object [], no_arguments_nulFree⟩,
    .closed 0 ⟨⟨"ok", ok_nulFree⟩, none, none⟩ 0]

def answers : Nat → List (CallEvent Empty)
  | 0 => []
  | count + 1 => answers count ++ answer

theorem answer_bytes (number : UInt64) (free : Context.nulFree "ok" = true) :
    (record number ⟨.object [], rfl⟩ ⟨"ok", free⟩).byteCount = detailRecordMinBytes := by
  obtain ⟨_, arguments, ⟨cut, inside, _, output⟩, _⟩ :=
    record_recorded number ⟨.object [], rfl⟩ ⟨"ok", free⟩
  have whole : (Json.object []).encodedLen = 2 := by
    rw [Json.encodedLen_object]
    rfl
  have short := Text.bytes_prefix_le inside
  have two : Text.bytes "ok".toList = 2 := by decide
  have same : (keptArguments ⟨.object [], rfl⟩).1 = [] := by
    rw [keptArguments]
    dsimp only
    split
    · rfl
    · rfl
  rw [ToolCallRecord.byteCount, arguments, output, Text.utf8ByteSize_ofList, same, whole,
    detailRecordMinBytes]
  dsimp only at short
  omega

/-- What a ledger that only answered `count` calls has. -/
structure Answered (s : Ledger) (count : Nat) : Prop where
  opened : s.opened = []
  calls : s.calls = count
  spent : s.spent = 256 * count
  records : s.records.length = count

theorem Answered.again {s : Ledger} {count : Nat} (answered : Answered s count) :
    (Run.final Ledger.step s answer).calls = count + 1 ∧
      (Run.final Ledger.step s answer).opened = [] ∧
      count ≤ (Run.final Ledger.step s answer).records.length ∧
      (256 * (count + 1) ≤ detailEventMaxBytes →
        Answered (Run.final Ledger.step s answer) (count + 1)) := by
  obtain ⟨opened, calls, spent, kept⟩ := answered
  simp only [answer, Run.final, Ledger.step, Ledger.call, Ledger.close, opened, List.nil_append,
    List.getElem?_cons_zero, Ledger.hold, Ledger.finishCall, List.eraseIdx_cons_zero,
    answer_bytes, spent, detailRecordMinBytes]
  split
  next fits =>
    refine ⟨congrArg (· + 1) calls, rfl, ?_, fun _ => ⟨rfl, congrArg (· + 1) calls, rfl, ?_⟩⟩
    · rw [List.length_append, List.length_singleton]
      omega
    · rw [List.length_append, List.length_singleton, kept]
  next full => exact ⟨congrArg (· + 1) calls, rfl, kept.ge, fun fits => absurd fits full⟩

theorem answered_run {count : Nat} (fits : 256 * count ≤ detailEventMaxBytes) :
    Answered (Run.final Ledger.step Ledger.new (answers count)) count := by
  induction count with
  | zero => exact ⟨rfl, rfl, rfl, rfl⟩
  | succ count ih =>
      rw [answers, Run.final_append]
      exact (ih (by omega)).again.2.2.2 fits

theorem openings_append (first second : List (CallEvent Empty)) :
    Ledger.openings (first ++ second) = Ledger.openings first + Ledger.openings second := by
  rw [Ledger.openings, List.countP_append]
  rfl

theorem openings_answers (count : Nat) : Ledger.openings (answers count) = count := by
  induction count with
  | zero => rfl
  | succ count ih =>
      rw [answers, openings_append, ih]
      rfl

theorem answered_past {count : Nat} (fits : 256 * count ≤ detailEventMaxBytes) :
    (Run.final Ledger.step Ledger.new (answers (count + 1))).calls = count + 1 ∧
      (Run.final Ledger.step Ledger.new (answers (count + 1))).opened = [] ∧
      count ≤ (Run.final Ledger.step Ledger.new (answers (count + 1))).records.length := by
  rw [answers, Run.final_append]
  obtain ⟨calls, opened, records, _⟩ := (answered_run fits).again
  exact ⟨calls, opened, records⟩

/-- Past its two hundred rows a trace omits every call, whose records all fit but the last. -/
theorem omitted_answers {count : Nat} (fits : 256 * count ≤ detailEventMaxBytes)
    (numbered : count + 1 ≤ callNumberMax) {s : Desk}
    (reached : Run.final step new ((answers (count + 1)).map .call) = s) :
    count + 1 ≤ s.omitted + traceMaxCalls ∧ s.leftOut ≤ 1 := by
  obtain ⟨calls, opened, records⟩ := answered_past fits
  have few : Ledger.new.calls + Ledger.openings (answers (count + 1)) ≤ callNumberMax := by
    rwa [openings_answers, Ledger.new, Nat.zero_add]
  obtain ⟨sound, _⟩ := Ledger.Sound.new.run few
  have ledger := ledger_run announced_new (answers (count + 1))
  have handed := handed_run new (answers (count + 1))
  have kept := (run_kept kept_new announced_new ((answers (count + 1)).map .call)).1
  rw [reached] at ledger handed kept
  rw [show new.ledger = Ledger.new from rfl] at ledger
  rw [← ledger] at calls opened records sound
  have ends := sound.ends
  have listed := sound.trace.few
  have all := sound.trace.counted
  have told := kept.counted
  have made := kept.made.length_le
  have none_before : new.handed = [] := rfl
  rw [toldSoFar, handed.trans none_before, List.map_nil, List.sum_nil, Desk.told,
    Trace.finish] at told
  rw [opened, calls, List.length_nil] at ends
  rw [List.length_map] at made
  rw [omitted, leftOut, Desk.records, handed, none_before, List.map_nil, List.sum_nil,
    List.flatMap_nil, List.nil_append]
  dsimp only at told
  omega

/-- 4097 short calls: one record does not fit, and some thousand rows are omitted. -/
theorem left_out_uncounted :
    ¬ ∀ events : List (DeskEvent Empty),
      (Run.final step new events).omitted = (Run.final step new events).leftOut := by
  intro counts
  have uncounted := counts ((answers 4097).map .call)
  generalize reached : Run.final step new ((answers 4097).map .call) = s at uncounted
  obtain ⟨many, one⟩ := omitted_answers (show 256 * 4096 ≤ detailEventMaxBytes by decide)
    (show 4096 + 1 ≤ callNumberMax by decide) reached
  rw [traceMaxCalls] at many
  omega

end Desk

end Agentsfleet.Tool
