import Agentsfleet.Tool.Push

/-!
# Full tool records

Each finished call's record, cut so that it travels alone in one post, the posts
a run's records are packed into, and the bounds the daemon reads each by.
-/

set_option autoImplicit false

namespace Agentsfleet.Tool

open Agentsfleet.Core
open Agentsfleet.Context (nulFree)
open Agentsfleet.Library

def callNumberMin : Nat := 1
def callNumberMax : Nat := 2 ^ 63 - 1
def detailFieldMaxBytes : Nat := 64 * 1024
def detailEventMaxBytes : Nat := 1024 * 1024
def detailPostMaxBytes : Nat := 256 * 1024
def detailRecordMinBytes : Nat := 256

structure ToolCallRecord where
  callNumber : UInt64
  arguments : Members
  truncatedArguments : Bool
  output : String
  outputLineCount : Nat
  truncated : Bool

namespace ToolCallRecord

def toJson (record : ToolCallRecord) : Json :=
  .object [("call_number", decimal record.callNumber.toNat),
    ("arguments", .object record.arguments),
    ("truncated_arguments", .bool record.truncatedArguments), ("output", .string record.output),
    ("output_line_count", decimal record.outputLineCount), ("truncated", .bool record.truncated)]

def encodedLen (record : ToolCallRecord) : Nat := record.toJson.encodedLen

def byteCount (record : ToolCallRecord) : Nat :=
  max ((Json.object record.arguments).encodedLen + record.output.utf8ByteSize) detailRecordMinBytes

def freeOfNul (record : ToolCallRecord) : Bool :=
  nulFree record.output && Json.everyMember nulFree record.arguments

end ToolCallRecord

inductive DetailRejection where
  | malformed
  | tooLarge
  | overBudget
deriving DecidableEq, Repr

namespace ToolCallRecord

/-- The bounds the type declares, in the order their reasons are picked. -/
def validate (record : ToolCallRecord) : Except DetailRejection Unit :=
  if record.callNumber.toNat < callNumberMin ∨ callNumberMax < record.callNumber.toNat then
    .error .malformed
  else if record.freeOfNul = false then .error .malformed
  else if detailFieldMaxBytes < (Json.object record.arguments).encodedLen then .error .tooLarge
  else if detailFieldMaxBytes < record.output.utf8ByteSize then .error .tooLarge
  else .ok ()

/-- `serde_json` reads back no text nested this deep. -/
def recursionLimit : Nat := 128

/-- Reads the text the runner wrote and holds it to its bounds.  `write` is how a
number reads back: not every float does as it was. -/
def narrow (write : String → String) (record : ToolCallRecord) :
    Except DetailRejection ToolCallRecord :=
  if recursionLimit ≤ record.toJson.depth then .error .malformed
  else
    let read := { record with arguments := Json.renumberMembers write record.arguments }
    match read.validate with
    | .ok () => .ok read
    | .error reason => .error reason

end ToolCallRecord

/-- `POST …/tool-calls`: the records travel as the text they encode to. -/
def requestLen (fencingToken : UInt64) (calls : List ToolCallRecord) : Nat :=
  (Json.object [("fencing_token", decimal fencingToken.toNat),
    ("calls", .array (calls.map ToolCallRecord.toJson))]).encodedLen

/-- The room an empty post takes at the largest fencing token. -/
def postEnvelopeBytes : Nat := requestLen (UInt64.ofNat (2 ^ 64 - 1)) []

def room : Nat := detailPostMaxBytes - postEnvelopeBytes

/-- The output kept by the loop in `record`: halved until the record fits. -/
def fit (record : ToolCallRecord) (output keep : List Char) : ToolCallRecord :=
  let cut : ToolCallRecord :=
    { record with
      output := String.ofList keep
      truncated := decide (Text.bytes keep < Text.bytes output) }
  if Text.bytes keep = 0 ∨ cut.encodedLen ≤ room then cut
  else fit record output (Text.floor (Text.bytes keep / 2) output)
termination_by Text.bytes keep
decreasing_by
  have shorter := Text.bytes_floor_le (Text.bytes keep / 2) output
  omega

/-- The arguments a record keeps, and whether they were cut. -/
def keptArguments (arguments : CleanJson) : Members × Bool :=
  match arguments.value with
  | .object fields =>
      if (Json.object fields).encodedLen ≤ detailFieldMaxBytes then (fields, false) else ([], true)
  | _ => ([], false)

/-- Call `number`'s record, from its scrubbed arguments and output. -/
def record (number : UInt64) (arguments : CleanJson) (output : CleanText) : ToolCallRecord :=
  let kept := keptArguments arguments
  let text := output.text.toList
  fit
    { callNumber := number
      arguments := kept.1
      truncatedArguments := kept.2
      output := ""
      outputLineCount := asU64 (Text.lines text)
      truncated := false }
    text (Text.floor detailFieldMaxBytes text)

/-! ## The posts -/

structure Packing where
  bodies : List (List ToolCallRecord)
  batch : List ToolCallRecord
  size : Nat

/-- One turn of the loop in `bodies`. -/
def pack (fencingToken : UInt64) (packing : Packing) (record : ToolCallRecord) : Packing :=
  let text := record.encodedLen
  -- A comma joins each record after a body's first.
  let packing : Packing :=
    if packing.batch.isEmpty = false ∧ detailPostMaxBytes < packing.size + 1 + text then
      ⟨packing.bodies ++ [packing.batch], [], requestLen fencingToken []⟩
    else packing
  { packing with
    size := packing.size + (if packing.batch.isEmpty then 0 else 1) + text
    batch := packing.batch ++ [record] }

/-- The posts of `records` under `fencingToken`, in order. -/
def bodies (fencingToken : UInt64) (records : List ToolCallRecord) : List (List ToolCallRecord) :=
  let packed := records.foldl (pack fencingToken) ⟨[], [], requestLen fencingToken []⟩
  if packed.batch.isEmpty then packed.bodies else packed.bodies ++ [packed.batch]

/-! ## A record travels alone -/

theorem requestLen_eq (fencingToken : UInt64) (calls : List ToolCallRecord) :
    requestLen fencingToken calls =
      requestLen fencingToken [] + Json.itemsLen (calls.map ToolCallRecord.toJson) +
        (calls.length - 1) := by
  simp only [requestLen, Json.encodedLen_object, Json.membersLen, Json.encodedLen_array,
    List.map_nil, Json.itemsLen, List.length_map, List.length_cons, List.length_nil]
  omega

theorem decimal_encodedLen (value : Nat) :
    (decimal value).encodedLen = (Nat.repr value).utf8ByteSize := rfl

theorem decimal_encodedLen_le {value : Nat} (bounded : value < 2 ^ 64) :
    (decimal value).encodedLen ≤ 20 := by
  rw [decimal_encodedLen, Text.utf8ByteSize_repr_le (by decide)]
  exact Nat.lt_trans bounded (by decide)

theorem bool_encodedLen_le (value : Bool) : (Json.bool value).encodedLen ≤ 5 := by
  cases value <;> decide

theorem requestLen_empty (fencingToken : UInt64) :
    requestLen fencingToken [] = (decimal fencingToken.toNat).encodedLen + 29 := by
  have token : (JsonText.string "fencing_token").utf8ByteSize = 15 := by decide
  have calls : (JsonText.string "calls").utf8ByteSize = 7 := by decide
  simp only [requestLen, Json.encodedLen_object, Json.membersLen, Json.encodedLen_array,
    List.map_nil, Json.itemsLen, List.length_cons, List.length_nil, token, calls]
  omega

theorem postEnvelopeBytes_eq : postEnvelopeBytes = 49 := by
  have most : (UInt64.ofNat (2 ^ 64 - 1)).toNat = 2 ^ 64 - 1 := by decide
  have few : (decimal (2 ^ 64 - 1)).encodedLen ≤ 20 := decimal_encodedLen_le (by decide)
  have many : ¬ (decimal (2 ^ 64 - 1)).encodedLen ≤ 19 := by
    rw [decimal_encodedLen, Text.utf8ByteSize_repr_le (by decide)]
    decide
  rw [postEnvelopeBytes, requestLen_empty, most]
  omega

theorem requestLen_empty_le (fencingToken : UInt64) :
    requestLen fencingToken [] ≤ postEnvelopeBytes := by
  have digits := decimal_encodedLen_le fencingToken.toNat_lt
  rw [postEnvelopeBytes_eq, requestLen_empty]
  omega

theorem encodedLen_le_room {record : ToolCallRecord} (silent : record.output = "")
    (arguments : (Json.object record.arguments).encodedLen ≤ detailFieldMaxBytes)
    (lines : record.outputLineCount < 2 ^ 64) : record.encodedLen ≤ room := by
  have number := decimal_encodedLen_le record.callNumber.toNat_lt
  have count := decimal_encodedLen_le lines
  have cut := bool_encodedLen_le record.truncated
  have cutArguments := bool_encodedLen_le record.truncatedArguments
  have none_said : (Json.string "").encodedLen = 2 := by decide
  have label₁ : (JsonText.string "call_number").utf8ByteSize = 13 := by decide
  have label₂ : (JsonText.string "arguments").utf8ByteSize = 11 := by decide
  have label₃ : (JsonText.string "truncated_arguments").utf8ByteSize = 21 := by decide
  have label₄ : (JsonText.string "output").utf8ByteSize = 8 := by decide
  have label₅ : (JsonText.string "output_line_count").utf8ByteSize = 19 := by decide
  have label₆ : (JsonText.string "truncated").utf8ByteSize = 11 := by decide
  rw [room, postEnvelopeBytes_eq, ToolCallRecord.encodedLen, ToolCallRecord.toJson, silent,
    Json.encodedLen_object]
  simp only [Json.membersLen, List.length_cons, List.length_nil, none_said, label₁, label₂,
    label₃, label₄, label₅, label₆]
  rw [detailFieldMaxBytes] at arguments
  rw [detailPostMaxBytes]
  omega

theorem bytes_eq_zero {text : List Char} (none_left : Text.bytes text = 0) : text = [] := by
  cases text with
  | nil => rfl
  | cons c rest =>
      have wide := c.utf8Size_pos
      rw [Text.bytes] at none_left
      omega

/-- The loop ends with some prefix of the output, cut short or not, that fits
unless nothing is left of it. -/
theorem fit_spec (record : ToolCallRecord) (output : List Char) {keep : List Char}
    (start : keep <+: output) :
    ∃ cut, cut <+: output ∧ Text.bytes cut ≤ Text.bytes keep ∧
      fit record output keep =
        { record with
          output := String.ofList cut
          truncated := decide (Text.bytes cut < Text.bytes output) } ∧
      (cut = [] ∨ (fit record output keep).encodedLen ≤ room) := by
  induction keep using fit.induct record output with
  | case1 keep cut ends =>
      have same : fit record output keep = cut := by
        rw [fit, if_pos ends]
      refine ⟨keep, start, Nat.le_refl _, same, ?_⟩
      rw [same]
      exact ends.imp bytes_eq_zero id
  | case2 keep cut goes ih =>
      have same : fit record output keep =
          fit record output (Text.floor (Text.bytes keep / 2) output) := by
        rw [fit, if_neg goes]
      have shorter := Text.bytes_floor_le (Text.bytes keep / 2) output
      obtain ⟨found, inside, bound, kept, fits⟩ := ih (Text.floor_prefix _ _)
      rw [same]
      exact ⟨found, inside, by omega, kept, fits⟩

theorem keptArguments_fit (arguments : CleanJson) :
    (Json.object (keptArguments arguments).1).encodedLen ≤ detailFieldMaxBytes ∧
      Json.everyMember nulFree (keptArguments arguments).1 = true := by
  have none_left : (Json.object []).encodedLen ≤ detailFieldMaxBytes := by
    rw [Json.encodedLen_object]
    decide
  obtain ⟨value, free⟩ := arguments
  rw [keptArguments]
  cases value with
  | object fields =>
      dsimp only
      split
      next fits => exact ⟨fits, free⟩
      next => exact ⟨none_left, rfl⟩
  | _ => exact ⟨none_left, rfl⟩

structure Recorded (number : UInt64) (arguments : CleanJson) (output : CleanText)
    (made : ToolCallRecord) : Prop where
  number : made.callNumber = number
  arguments : made.arguments = (keptArguments arguments).1
  output : ∃ cut, cut <+: output.text.toList ∧ Text.bytes cut ≤ detailFieldMaxBytes ∧
    made.output = String.ofList cut
  fits : made.encodedLen ≤ room

theorem record_recorded (number : UInt64) (arguments : CleanJson) (output : CleanText) :
    Recorded number arguments output (record number arguments output) := by
  have bound := Text.bytes_floor_le detailFieldMaxBytes output.text.toList
  have kept := (keptArguments_fit arguments).1
  rw [record]
  obtain ⟨cut, inside, short, made, ends⟩ := fit_spec
    { callNumber := number
      arguments := (keptArguments arguments).1
      truncatedArguments := (keptArguments arguments).2
      output := ""
      outputLineCount := asU64 (Text.lines output.text.toList)
      truncated := false }
    output.text.toList (Text.floor_prefix detailFieldMaxBytes output.text.toList)
  have lines : asU64 (Text.lines output.text.toList) < 2 ^ 64 := Nat.mod_lt _ (by decide)
  refine ⟨?_, ?_, ⟨cut, inside, by omega, ?_⟩, ?_⟩
  · rw [made]
  · rw [made]
  · rw [made]
  · rcases ends with rfl | fits
    · rw [made]
      exact encodedLen_le_room rfl kept lines
    · exact fits

/-! ## The posts hold every record once -/

theorem requestLen_append (fencingToken : UInt64) (batch : List ToolCallRecord)
    (record : ToolCallRecord) :
    requestLen fencingToken (batch ++ [record]) =
      requestLen fencingToken batch + (if batch.isEmpty then 0 else 1) + record.encodedLen := by
  rw [requestLen_eq, requestLen_eq fencingToken batch, List.map_append, Json.itemsLen_append]
  cases batch with
  | nil =>
      simp only [List.isEmpty_nil, if_true, List.nil_append, List.map_nil, List.map_cons,
        Json.itemsLen, List.length_cons, List.length_nil, ToolCallRecord.encodedLen]
      omega
  | cons first rest =>
      simp only [List.isEmpty_cons, Bool.false_eq_true, if_false, List.length_append,
        List.length_cons, List.length_nil, List.map_cons, List.map_nil, Json.itemsLen,
        ToolCallRecord.encodedLen]
      omega

/-- What the packing has when `packed` have been taken. -/
structure Packed (fencingToken : UInt64) (packed : List ToolCallRecord) (packing : Packing) :
    Prop where
  kept : packing.bodies.flatten ++ packing.batch = packed
  within : ∀ body ∈ packing.bodies, requestLen fencingToken body ≤ detailPostMaxBytes
  size : packing.size = requestLen fencingToken packing.batch
  fits : packing.size ≤ detailPostMaxBytes

namespace Packed

variable {fencingToken : UInt64} {packed : List ToolCallRecord} {packing : Packing}

theorem none (fencingToken : UInt64) :
    Packed fencingToken [] ⟨[], [], requestLen fencingToken []⟩ where
  kept := rfl
  within _ member := absurd member List.not_mem_nil
  size := by dsimp only
  fits := by
    have envelope := requestLen_empty_le fencingToken
    rw [postEnvelopeBytes_eq] at envelope
    dsimp only [detailPostMaxBytes]
    omega

theorem sealed (held : Packed fencingToken packed packing) :
    Packed fencingToken packed
      ⟨packing.bodies ++ [packing.batch], [], requestLen fencingToken []⟩ := by
  refine ⟨?_, ?_, (none fencingToken).size, (none fencingToken).fits⟩
  · rw [List.flatten_append, List.flatten_singleton, List.append_nil]
    exact held.kept
  · intro body member
    rcases List.mem_append.mp member with before | new
    · exact held.within body before
    · rw [List.mem_singleton.mp new, ← held.size]
      exact held.fits

theorem add (held : Packed fencingToken packed packing) {record : ToolCallRecord}
    (roomy : packing.size + (if packing.batch.isEmpty then 0 else 1) + record.encodedLen ≤
      detailPostMaxBytes) :
    Packed fencingToken (packed ++ [record])
      { packing with
        size := packing.size + (if packing.batch.isEmpty then 0 else 1) + record.encodedLen
        batch := packing.batch ++ [record] } := by
  refine ⟨?_, held.within, ?_, roomy⟩
  · rw [← List.append_assoc, held.kept]
  · rw [requestLen_append, held.size]

theorem pack (held : Packed fencingToken packed packing) {record : ToolCallRecord}
    (alone : record.encodedLen ≤ room) :
    Packed fencingToken (packed ++ [record]) (Tool.pack fencingToken packing record) := by
  have envelope := requestLen_empty_le fencingToken
  have empty_fits := postEnvelopeBytes_eq
  rw [room, detailPostMaxBytes] at alone
  rw [Tool.pack]
  by_cases full : packing.batch.isEmpty = false ∧
      detailPostMaxBytes < packing.size + 1 + record.encodedLen
  · rw [if_pos full]
    refine held.sealed.add ?_
    simp only [List.isEmpty_nil, if_true, detailPostMaxBytes]
    omega
  · rw [if_neg full]
    refine held.add ?_
    cases first : packing.batch.isEmpty with
    | true =>
        have size := held.size
        rw [List.isEmpty_iff.mp first] at size
        simp only [if_true, detailPostMaxBytes]
        omega
    | false =>
        have bound := Nat.not_lt.mp fun more => full ⟨first, more⟩
        simp only [Bool.false_eq_true, if_false]
        exact bound

theorem run (held : Packed fencingToken packed packing) {records : List ToolCallRecord}
    (alone : ∀ record ∈ records, record.encodedLen ≤ room) :
    Packed fencingToken (packed ++ records) (records.foldl (Tool.pack fencingToken) packing) := by
  induction records generalizing packed packing with
  | nil =>
      rw [List.append_nil]
      exact held
  | cons record rest ih =>
      obtain ⟨first, others⟩ := List.forall_mem_cons.mp alone
      have next := ih (held.pack first) others
      rwa [List.append_assoc, List.singleton_append] at next

end Packed

theorem bodies_kept (fencingToken : UInt64) {records : List ToolCallRecord}
    (alone : ∀ record ∈ records, record.encodedLen ≤ room) :
    (bodies fencingToken records).flatten = records ∧
      ∀ body ∈ bodies fencingToken records, requestLen fencingToken body ≤ detailPostMaxBytes := by
  have packed := (Packed.none fencingToken).run alone
  rw [List.nil_append] at packed
  rw [bodies]
  generalize records.foldl (Tool.pack fencingToken) ⟨[], [], requestLen fencingToken []⟩ =
    packing at packed
  cases left : packing.batch.isEmpty with
  | true =>
      have kept := packed.kept
      rw [List.isEmpty_iff.mp left, List.append_nil] at kept
      rw [if_pos rfl]
      exact ⟨kept, packed.within⟩
  | false =>
      rw [if_neg Bool.false_ne_true, List.flatten_append, List.flatten_singleton]
      refine ⟨packed.kept, ?_⟩
      intro body member
      rcases List.mem_append.mp member with before | new
      · exact packed.within body before
      · rw [List.mem_singleton.mp new, ← packed.size]
        exact packed.fits

/-! ## What the daemon reads -/

structure FinishedCall where
  number : UInt64
  arguments : CleanJson
  output : CleanText

namespace FinishedCall

def record (call : FinishedCall) : ToolCallRecord :=
  Tool.record call.number call.arguments call.output

/-- The call has a number of the stored column's, and arguments small enough to
be kept are not nested past what a record is read back to, nor longer once read. -/
def Readable (write : String → String) (call : FinishedCall) : Prop :=
  (callNumberMin ≤ call.number.toNat ∧ call.number.toNat ≤ callNumberMax) ∧
    ∀ fields, call.arguments.value = .object fields →
      (Json.object fields).encodedLen ≤ detailFieldMaxBytes →
        (Json.object fields).depth + 1 < ToolCallRecord.recursionLimit ∧
          (Json.object (Json.renumberMembers write fields)).encodedLen ≤ detailFieldMaxBytes

end FinishedCall

theorem depth_toJson (record : ToolCallRecord) :
    record.toJson.depth = (Json.object record.arguments).depth + 1 := by
  simp only [ToolCallRecord.toJson, Json.depth, Json.membersDepth, decimal]
  omega

/-- Of what `narrow` checks, the runner leaves only a call's number, how deep its
arguments nest and what their numbers read back as. -/
theorem narrow_ok_iff (write : String → String) {number : UInt64} {arguments : CleanJson}
    {output : CleanText} {made : ToolCallRecord}
    (recorded : Recorded number arguments output made) :
    (∃ read, made.narrow write = .ok read) ↔
      (callNumberMin ≤ number.toNat ∧ number.toNat ≤ callNumberMax) ∧
        (Json.object (keptArguments arguments).1).depth + 1 < ToolCallRecord.recursionLimit ∧
          (Json.object (Json.renumberMembers write (keptArguments arguments).1)).encodedLen ≤
            detailFieldMaxBytes := by
  obtain ⟨cut, inside, short, said⟩ := recorded.output
  have clean : nulFree made.output = true := by
    rw [said]
    exact nulFree_of_subset output.free fun c member => inside.subset member
  have small : made.output.utf8ByteSize ≤ detailFieldMaxBytes := by
    rw [said, Text.utf8ByteSize_ofList]
    exact short
  have free : Json.everyMember nulFree
      (Json.renumberMembers write (keptArguments arguments).1) = true := by
    rw [Json.everyMember_renumber]
    exact (keptArguments_fit arguments).2
  have valid : ({ made with
      arguments := Json.renumberMembers write made.arguments } : ToolCallRecord).validate = .ok () ↔
      (callNumberMin ≤ number.toNat ∧ number.toNat ≤ callNumberMax) ∧
        (Json.object (Json.renumberMembers write (keptArguments arguments).1)).encodedLen ≤
          detailFieldMaxBytes := by
    rw [ToolCallRecord.validate, ToolCallRecord.freeOfNul]
    simp only [recorded.number, recorded.arguments, clean, free, Bool.and_self]
    rw [if_neg (by decide : ¬ true = false), if_neg (Nat.not_lt.mpr small)]
    by_cases counted : number.toNat < callNumberMin ∨ callNumberMax < number.toNat
    · rw [if_pos counted]
      constructor
      · exact nofun
      · rintro ⟨⟨low, high⟩, _⟩
        omega
    · rw [if_neg counted]
      by_cases large : detailFieldMaxBytes <
          (Json.object (Json.renumberMembers write (keptArguments arguments).1)).encodedLen
      · rw [if_pos large]
        constructor
        · exact nofun
        · rintro ⟨_, fits⟩
          omega
      · rw [if_neg large]
        constructor
        · intro _
          omega
        · exact fun _ => rfl
  rw [ToolCallRecord.narrow, depth_toJson, recorded.arguments]
  by_cases deep : ToolCallRecord.recursionLimit ≤
      (Json.object (keptArguments arguments).1).depth + 1
  · rw [if_pos deep]
    constructor
    · rintro ⟨read, accepted⟩
      exact absurd accepted nofun
    · rintro ⟨_, shallow, _⟩
      omega
  · rw [if_neg deep]
    rw [recorded.arguments] at valid
    dsimp only
    cases checked : ({ made with
        arguments := Json.renumberMembers write (keptArguments arguments).1 } :
          ToolCallRecord).validate with
    | ok done =>
        obtain ⟨counted, fits⟩ := valid.mp checked
        constructor
        · intro _
          exact ⟨counted, by omega, fits⟩
        · intro _
          exact ⟨_, rfl⟩
    | error reason =>
        constructor
        · rintro ⟨read, accepted⟩
          exact absurd accepted nofun
        · rintro ⟨counted, _, fits⟩
          rw [valid.mpr ⟨counted, fits⟩] at checked
          exact absurd checked nofun

theorem FinishedCall.narrow_iff (write : String → String) (call : FinishedCall) :
    (∃ read, call.record.narrow write = .ok read) ↔ call.Readable write := by
  rw [FinishedCall.record,
    narrow_ok_iff write (record_recorded call.number call.arguments call.output)]
  have none_left : (Json.object []).depth + 1 < ToolCallRecord.recursionLimit ∧
      (Json.object (Json.renumberMembers write [])).encodedLen ≤ detailFieldMaxBytes := by
    rw [Json.renumberMembers, Json.encodedLen_object]
    decide
  have alike : ((Json.object (keptArguments call.arguments).1).depth + 1 <
        ToolCallRecord.recursionLimit ∧
      (Json.object (Json.renumberMembers write (keptArguments call.arguments).1)).encodedLen ≤
        detailFieldMaxBytes) ↔
      ∀ fields, call.arguments.value = .object fields →
        (Json.object fields).encodedLen ≤ detailFieldMaxBytes →
          (Json.object fields).depth + 1 < ToolCallRecord.recursionLimit ∧
            (Json.object (Json.renumberMembers write fields)).encodedLen ≤
              detailFieldMaxBytes := by
    rw [keptArguments]
    cases call.arguments.value with
    | object fields =>
        by_cases fits : (Json.object fields).encodedLen ≤ detailFieldMaxBytes
        · dsimp only
          rw [if_pos fits]
          simp only [Json.object.injEq, forall_eq', fits, true_implies]
        · dsimp only
          rw [if_neg fits]
          simp only [Json.object.injEq, forall_eq', fits, false_implies, iff_true]
          exact none_left
    | _ => simpa using none_left
  rw [alike, FinishedCall.Readable]

/-- What is promised of a run's records: each travels alone, the posts hold each
once and in order, each within the ceiling, and the daemon accepts every one. -/
structure Posted (write : String → String) (fencingToken : UInt64) (calls : List FinishedCall) :
    Prop where
  alone : ∀ call ∈ calls, call.record.encodedLen + postEnvelopeBytes ≤ detailPostMaxBytes
  kept : (bodies fencingToken (calls.map FinishedCall.record)).flatten =
    calls.map FinishedCall.record
  within : ∀ body ∈ bodies fencingToken (calls.map FinishedCall.record),
    requestLen fencingToken body ≤ detailPostMaxBytes
  accepted : ∀ body ∈ bodies fencingToken (calls.map FinishedCall.record),
    ∀ record ∈ body, ∃ read, record.narrow write = .ok read

/-- For any calls, any fence and however numbers read back. -/
theorem records_posted_iff (write : String → String) (fencingToken : UInt64)
    (calls : List FinishedCall) :
    Posted write fencingToken calls ↔ ∀ call ∈ calls, call.Readable write := by
  have alone : ∀ call : FinishedCall, call.record.encodedLen ≤ room := fun call =>
    (record_recorded call.number call.arguments call.output).fits
  have every : ∀ record ∈ calls.map FinishedCall.record, record.encodedLen ≤ room := by
    intro record member
    obtain ⟨call, _, rfl⟩ := List.mem_map.mp member
    exact alone call
  obtain ⟨kept, within⟩ := bodies_kept fencingToken every
  constructor
  · intro posted call member
    have recorded : call.record ∈
        (bodies fencingToken (calls.map FinishedCall.record)).flatten := by
      rw [kept]
      exact List.mem_map_of_mem member
    obtain ⟨body, held, inside⟩ := List.mem_flatten.mp recorded
    exact (call.narrow_iff write).mp (posted.accepted body held _ inside)
  · intro readable
    refine ⟨?_, kept, within, ?_⟩
    · intro call _
      have fits := alone call
      rw [room, postEnvelopeBytes_eq, detailPostMaxBytes] at fits
      rw [postEnvelopeBytes_eq, detailPostMaxBytes]
      omega
    · intro body held record inside
      have member : record ∈ (bodies fencingToken (calls.map FinishedCall.record)).flatten :=
        List.mem_flatten.mpr ⟨body, held, inside⟩
      rw [kept] at member
      obtain ⟨call, called, rfl⟩ := List.mem_map.mp member
      exact (call.narrow_iff write).mpr (readable call called)

def nested : Nat → Json
  | 0 => .object []
  | levels + 1 => .object [("a", nested levels)]

theorem depth_nested (levels : Nat) : (nested levels).depth = levels + 1 := by
  induction levels with
  | zero => rfl
  | succ levels ih =>
      rw [nested, Json.depth, Json.membersDepth, Json.membersDepth, ih]
      omega

theorem encodedLen_nested (levels : Nat) : (nested levels).encodedLen = 6 * levels + 2 := by
  have label : (JsonText.string "a").utf8ByteSize = 3 := by decide
  induction levels with
  | zero =>
      rw [nested, Json.encodedLen_object]
      rfl
  | succ levels ih =>
      rw [nested, Json.encodedLen_object]
      simp only [Json.membersLen, label, ih, List.length_cons, List.length_nil]
      omega

theorem nested_free (levels : Nat) : (nested levels).everyText nulFree = true := by
  induction levels with
  | zero => rfl
  | succ levels ih =>
      rw [nested, Json.everyText, Json.everyMember, ih]
      decide

/-- A call whose arguments are 127 objects inside each other. -/
def deepCall : FinishedCall := ⟨1, ⟨nested 126, nested_free 126⟩, ⟨"", rfl⟩⟩

/-- Its record, one level deeper, is more than the daemon reads back. -/
theorem deep_call_refused : ¬ Posted id 7 [deepCall] := by
  intro posted
  have recorded : deepCall.record ∈ (bodies 7 ([deepCall].map FinishedCall.record)).flatten := by
    rw [posted.kept]
    exact List.mem_singleton.mpr rfl
  obtain ⟨body, held, inside⟩ := List.mem_flatten.mp recorded
  have readable := (deepCall.narrow_iff id).mp (posted.accepted body held _ inside)
  have small : (nested 126).encodedLen ≤ detailFieldMaxBytes := by
    rw [encodedLen_nested]
    decide
  have shallow := (readable.2 _ rfl small).1
  have deep : (nested 126).depth = 127 := depth_nested 126
  rw [ToolCallRecord.recursionLimit] at shallow
  exact absurd shallow (Nat.not_lt.mpr (Nat.le_of_eq (congrArg (· + 1) deep).symm))

end Agentsfleet.Tool
