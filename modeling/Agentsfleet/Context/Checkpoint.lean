import Mathlib.Data.List.Basic
import Mathlib.Data.String.Basic

/-!
# Context checkpoints

A checkpoint replaces the oldest source groups of a conversation by a summary
and binds it to them by a chained digest.  The SHA-256 chain is a parameter
over the bytes it is fed; so is the JSON text of a summary.
-/

set_option autoImplicit false

namespace Agentsfleet.Context

inductive ContextError where
  | window
  | stale
  | cancelled
  | summary
  | document
  | boundary
deriving DecidableEq

def u64Max : Nat := 2 ^ 64 - 1

def saturatingAdd (left right : Nat) : Nat := min (left + right) u64Max
def saturatingMul (left right : Nat) : Nat := min (left * right) u64Max

/-! ## The window -/

def compactPercent : Nat := 90
def safePercent : Nat := 95
def percentWhole : Nat := 100

/-- The selected physical window and the output that the next call may spend. -/
structure Window where
  tokens : UInt32
  output : UInt32
  trigger : Nat
  operating : UInt32
deriving DecidableEq

namespace Window

def new (tokens output : UInt32) : Except ContextError Window :=
  if tokens = 0 ∨ output = 0 then .error .window
  else .ok ⟨tokens, output, compactPercent, tokens⟩

def withTriggerPercent (window : Window) (percent : Nat) : Window :=
  { window with trigger := max 1 (min percent compactPercent) }

def withOperatingTokens (window : Window) (tokens : UInt32) : Window :=
  { window with operating := if tokens = 0 then window.tokens else min window.tokens tokens }

def safeTokens (window : Window) : Nat := window.tokens.toNat * safePercent / percentWhole

def outputTokens (window : Window) : UInt32 := window.output

def triggerTokens (window : Window) : Nat :=
  window.operating.toNat * window.trigger / percentWhole

def needsCompaction (window : Window) (input : UInt64) : Bool :=
  decide (window.triggerTokens ≤ input.toNat) ||
    decide (window.safeTokens < saturatingAdd input.toNat window.output.toNat)

def fitOutput (window : Window) (input : UInt64) : Except ContextError Nat :=
  let remaining := window.safeTokens - input.toNat
  let output := min window.output.toNat remaining
  if output < 2 ^ 32 ∧ 0 < output then .ok output else .error .window

theorem fitOutput_spec (window : Window) (input : UInt64) :
    match window.fitOutput input with
    | .ok output =>
        0 < output ∧ output ≤ window.output.toNat ∧ input.toNat + output ≤ window.safeTokens
    | .error failure =>
        failure = .window ∧ (window.output.toNat = 0 ∨ window.safeTokens ≤ input.toNat) := by
  have small := window.output.toNat_lt
  simp only [fitOutput]
  split
  · rename_i output granted
    split at granted
    · cases granted
      omega
    · contradiction
  · rename_i failure refused
    split at refused
    · contradiction
    · cases refused
      exact ⟨rfl, by omega⟩

end Window

/-! ## Source groups and the digest chain -/

/-- One complete authored exchange or assistant/tool-result group. -/
structure Group where
  sequence : Nat
  text : String
deriving DecidableEq

structure Identity where
  scope : String
  model : String
  pinned : String
deriving DecidableEq

def summaryBytesMax : Nat := 32768
def summaryEntriesMax : Nat := 64
def summaryOutputTokens : Nat := 2048

/-- Untrusted, model-authored working notes. -/
structure Summary where
  goal : String
  constraints : List String
  decisions : List String
  completed : List String
  remaining : List String
  references : List String
deriving DecidableEq

/-- Unicode `White_Space`, which `str::trim` strips. -/
def isWhiteSpace (c : Char) : Bool :=
  let code := c.toNat
  (9 ≤ code && code ≤ 13) || code == 0x20 || code == 0x85 || code == 0xA0 || code == 0x1680 ||
    (0x2000 ≤ code && code ≤ 0x200A) || code == 0x2028 || code == 0x2029 || code == 0x202F ||
    code == 0x205F || code == 0x3000

def nulFree (text : String) : Bool := !text.toList.contains '\x00'

def boundedNotes (notes : List String) : Bool :=
  decide (notes.length ≤ summaryEntriesMax) &&
    notes.all fun note => decide (note.utf8ByteSize ≤ summaryBytesMax) && nulFree note

/-- The texts a run's documents are encoded to: the hexadecimal SHA-256 of some
bytes, and the JSON of a summary. -/
structure Encoding where
  sha256 : List UInt8 → String
  summary : Summary → Except ContextError String

/-- `Summary::validate_document`. -/
def Summary.validateDocument (encoding : Encoding) (summary : Summary) : Except ContextError Unit :=
  let shape :=
    decide (1 ≤ summary.goal.utf8ByteSize) &&
      decide (summary.goal.utf8ByteSize ≤ summaryBytesMax) &&
      nulFree summary.goal && boundedNotes summary.constraints && boundedNotes summary.decisions &&
      boundedNotes summary.completed && boundedNotes summary.remaining &&
      boundedNotes summary.references
  if !shape then .error .summary
  else
    match encoding.summary summary with
    | .error failure => .error failure
    | .ok encoded =>
        if summaryBytesMax < encoded.utf8ByteSize then .error .summary
        else if summary.goal.toList.all isWhiteSpace then .error .summary
        else .ok ()

/-- `u64::to_be_bytes`. -/
def toBeBytes (value : Nat) : List UInt8 :=
  (List.range 8).map fun place => UInt8.ofNat (value / 256 ^ (7 - place))

def groupBytes (digest : String) (group : Group) : List UInt8 :=
  digest.toUTF8.toList ++ toBeBytes group.sequence ++ toBeBytes group.text.utf8ByteSize ++
    group.text.toUTF8.toList

/-- Stable chaining avoids retaining old source text merely to validate a later page. -/
def digestGroups (encoding : Encoding) (previous : String) (groups : List Group) : String :=
  groups.foldl (fun digest group => encoding.sha256 (groupBytes digest group)) previous

theorem digestGroups_append (encoding : Encoding) (previous : String) (front back : List Group) :
    digestGroups encoding previous (front ++ back) =
      digestGroups encoding (digestGroups encoding previous front) back :=
  List.foldl_append

/-! ## Checkpoints -/

def formatVersion : Nat := 1

structure Checkpoint where
  formatVersion : Nat
  identity : Identity
  generation : Nat
  coveredThrough : Nat
  sourceDigest : String
  summary : Summary
deriving DecidableEq

/-- One bounded summary request selected by the planner. -/
structure Compaction where
  identity : Identity
  expectedGeneration : Nat
  priorDigest : String
  priorSummary : Option Summary
  groups : List Group
  outputTokens : Nat
deriving DecidableEq

def Compaction.coveredThrough (task : Compaction) : Nat :=
  match task.groups.getLast? with
  | some group => group.sequence
  | none => 0

namespace Checkpoint

def new (encoding : Encoding) (task : Compaction) (summary : Summary) :
    Except ContextError Checkpoint :=
  match summary.validateDocument encoding with
  | .error failure => .error failure
  | .ok () =>
      if task.groups.isEmpty then .error .stale
      else if u64Max < task.expectedGeneration + 1 then .error .stale
      else
        .ok
          { formatVersion := Context.formatVersion
            identity := task.identity
            generation := task.expectedGeneration + 1
            coveredThrough := task.coveredThrough
            sourceDigest := digestGroups encoding task.priorDigest task.groups
            summary := summary }

/-- Whether this format belongs to the current scope and selected model and state. -/
def belongsTo (checkpoint : Checkpoint) (identity : Identity) : Bool :=
  checkpoint.formatVersion == Context.formatVersion && decide (0 < checkpoint.generation) &&
    checkpoint.identity == identity

def verifySource (checkpoint : Checkpoint) (sequence : Nat) (digest : String) :
    Except ContextError Unit :=
  if sequence ≠ checkpoint.coveredThrough ∨ digest ≠ checkpoint.sourceDigest then .error .stale
  else .ok ()

/-- The groups a checkpoint stands for: they end at its watermark, and their
chained digest is the one it records. -/
structure Covers (encoding : Encoding) (checkpoint : Checkpoint) (groups : List Group) : Prop where
  watermark : groups.getLast?.map Group.sequence = some checkpoint.coveredThrough
  digest : digestGroups encoding "" groups = checkpoint.sourceDigest

end Checkpoint

/-- What meets one execution of a compaction: whether the run is stopped before
and after the model call, what the model summarized, and whether the store
published the checkpoint. -/
structure Execution where
  stoppedBefore : Bool
  summary : Except ContextError Summary
  stoppedAfter : Bool
  commit : Except ContextError Unit

/-- `execute`: summarize, validate, commit. -/
def execute (encoding : Encoding) (task : Compaction) (turn : Execution) :
    Except ContextError Checkpoint :=
  if turn.stoppedBefore then .error .cancelled
  else
    match turn.summary with
    | .error failure => .error failure
    | .ok summary =>
        if turn.stoppedAfter then .error .cancelled
        else
          match Checkpoint.new encoding task summary with
          | .error failure => .error failure
          | .ok checkpoint =>
              match turn.commit with
              | .error failure => .error failure
              | .ok () => .ok checkpoint

structure Checkpoint.Records (encoding : Encoding) (task : Compaction)
    (checkpoint : Checkpoint) : Prop where
  nonempty : task.groups ≠ []
  formatVersion : checkpoint.formatVersion = Context.formatVersion
  identity : checkpoint.identity = task.identity
  generation : checkpoint.generation = task.expectedGeneration + 1
  coveredThrough : checkpoint.coveredThrough = task.coveredThrough
  sourceDigest : checkpoint.sourceDigest = digestGroups encoding task.priorDigest task.groups

theorem Checkpoint.new_records (encoding : Encoding) (task : Compaction) (summary : Summary)
    (checkpoint : Checkpoint) (made : Checkpoint.new encoding task summary = .ok checkpoint) :
    checkpoint.Records encoding task := by
  unfold Checkpoint.new at made
  split at made
  · contradiction
  · split at made
    · contradiction
    · rename_i nonempty
      split at made
      · contradiction
      · cases made
        exact ⟨by simpa using nonempty, rfl, rfl, rfl, rfl, rfl⟩

theorem execute_records (encoding : Encoding) (task : Compaction) (turn : Execution)
    (checkpoint : Checkpoint) (executed : execute encoding task turn = .ok checkpoint) :
    checkpoint.Records encoding task := by
  unfold execute at executed
  split at executed
  · contradiction
  · cases summarized : turn.summary with
    | error failure => simp [summarized] at executed
    | ok summary =>
        simp only [summarized] at executed
        split at executed
        · contradiction
        · cases made : Checkpoint.new encoding task summary with
          | error failure => simp [made] at executed
          | ok published =>
              simp only [made] at executed
              cases committed : turn.commit with
              | error failure => simp [committed] at executed
              | ok done =>
                  simp only [committed, Except.ok.injEq] at executed
                  subst executed
                  exact Checkpoint.new_records encoding task summary published made

theorem Checkpoint.Records.covers {encoding : Encoding} {task : Compaction}
    {checkpoint : Checkpoint} (records : checkpoint.Records encoding task) (covered : List Group)
    (chained : task.priorDigest = digestGroups encoding "" covered) :
    checkpoint.Covers encoding (covered ++ task.groups) where
  watermark := by
    obtain ⟨front, last, ends⟩ := List.eq_nil_or_concat task.groups |>.resolve_left records.nonempty
    simp [records.coveredThrough, Compaction.coveredThrough, ends]
  digest := by
    rw [digestGroups_append, ← chained, records.sourceDigest]

theorem Checkpoint.Records.belongsTo {encoding : Encoding} {task : Compaction}
    {checkpoint : Checkpoint} (records : checkpoint.Records encoding task) :
    checkpoint.belongsTo task.identity = true := by
  simp [Checkpoint.belongsTo, records.formatVersion, records.generation, records.identity]

end Agentsfleet.Context
