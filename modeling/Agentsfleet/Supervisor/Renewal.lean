import Agentsfleet.Lease.Meter
import Agentsfleet.Library.Run
import Agentsfleet.Library.Table
import Mathlib.Data.List.Nodup

/-!
# A run's usage lines

The agent's meter numbers one line per provider request.  The runner sends the
oldest unrecorded lines with each renewal, renews until one body holds the
rest, and sends that body with the report.  The daemon keeps one row per work
and number, and answers a renewal with the highest number its body carried.

A body, once sent, may reach the daemon at any later time and any number of
times, and an answer the runner reads may be one to an earlier renewal.
-/

set_option autoImplicit false

namespace Agentsfleet.Supervisor

open Agentsfleet.Billing
open Agentsfleet.Lease
open Agentsfleet.Library

def linesMax : Nat := 512

/-- The highest number a runner's line takes. -/
def runnerSeqMax : Nat := daemonSeqBase - 1

theorem runnerSeqMax_lt : runnerSeqMax < daemonSeqBase := by
  simp [runnerSeqMax, daemonSeqBase]

/-! ## The meter -/

structure Usage where
  input : UInt64
  cachedInput : UInt64
  cacheWrite : UInt64
  cacheWrite5m : UInt64
  cacheWrite1h : UInt64
  output : UInt64
deriving DecidableEq

/-- `fetch_add`, which wraps. -/
def Usage.add (totals usage : Usage) : Usage where
  input := totals.input + usage.input
  cachedInput := totals.cachedInput + usage.cachedInput
  cacheWrite := totals.cacheWrite + usage.cacheWrite
  cacheWrite5m := totals.cacheWrite5m + usage.cacheWrite5m
  cacheWrite1h := totals.cacheWrite1h + usage.cacheWrite1h
  output := totals.output + usage.output

/-- A count the wire carries in 32 bits, saturated. -/
def narrow (count : UInt64) : UInt32 := UInt32.ofNat (min count.toNat u32Max)

structure Lines where
  next : Nat
  unrecorded : List RequestUsage
  numbered : next ≤ runnerSeqMax

structure Meter where
  totals : Usage
  lines : Lines

def Meter.new : Meter where
  totals := ⟨0, 0, 0, 0, 0, 0⟩
  lines := ⟨0, [], Nat.zero_le _⟩

def Lines.line (lines : Lines) (usage : Usage) (instant : Int) : RequestUsage where
  seq := lines.next
  instant := instant
  inputTokens := narrow usage.input
  cachedInputTokens := narrow usage.cachedInput
  cacheWriteTokens := narrow usage.cacheWrite
  cacheWrite5mTokens := narrow usage.cacheWrite5m
  cacheWrite1hTokens := narrow usage.cacheWrite1h
  outputTokens := narrow usage.output
  numbered := Nat.lt_of_le_of_lt lines.numbered runnerSeqMax_lt

/-- Adds one turn's tokens, and its request line.  Past the last number, the
number stays. -/
def Meter.add (meter : Meter) (usage : Usage) (instant : Int) : Meter where
  totals := meter.totals.add usage
  lines :=
    { next := min (meter.lines.next + 1) runnerSeqMax
      unrecorded := meter.lines.unrecorded ++ [meter.lines.line usage instant]
      numbered := Nat.min_le_right _ _ }

/-- The oldest lines the daemon has not recorded, at most one body's worth. -/
def Meter.unrecorded (meter : Meter) : List RequestUsage := meter.lines.unrecorded.take linesMax

def Meter.backlog (meter : Meter) : Nat := meter.lines.unrecorded.length

/-- Forgets every line the daemon recorded, through `seq`. -/
def Meter.recordedThrough (meter : Meter) (seq : Nat) : Meter :=
  { meter with
    lines := { meter.lines with
      unrecorded := meter.lines.unrecorded.filter fun line => decide (seq < line.seq) } }

/-! ## The runner and the daemon -/

inductive Phase where
  /-- The run goes on, between renewals. -/
  | idle
  /-- The run goes on, a renewal of it unanswered. -/
  | renewing
  /-- The run is over and a renewal of the flush, sent at this backlog, is unanswered. -/
  | flushing (backlog : Nat) (spent : List RequestUsage)
  /-- The report carries what is left. -/
  | settled
deriving DecidableEq

/-- A body sent: how many lines were forgotten by then, and what it carries. -/
structure Sending where
  forgotten : Nat
  requests : List RequestUsage
  renewal : Bool
deriving DecidableEq

/-- A `recorded_through` the runner read, after it had added this many lines. -/
structure Ack where
  through : Nat
  lines : Nat
deriving DecidableEq

/-- The meter, the bodies sent, what the daemon keeps of them and what it
answered.  `added`, `acks` and `backlogs` are the history: every line the meter
added, every answer read, and the backlog at each turn of the flush. -/
structure System where
  meter : Meter
  phase : Phase
  sent : List Sending
  recorded : List RequestUsage
  answers : List (Option Nat)
  added : List RequestUsage
  acks : List Ack
  backlogs : List Nat

def System.forgotten (s : System) : Nat := s.added.length - s.meter.backlog

def System.turn (s : System) (usage : Usage) (instant : Int) : System :=
  { s with
    meter := s.meter.add usage instant
    added := s.added ++ [s.meter.lines.line usage instant] }

def System.send (s : System) (requests : List RequestUsage) (renewal : Bool) : System :=
  { s with sent := ⟨s.forgotten, requests, renewal⟩ :: s.sent }

/-- What an answer's `recorded_through` makes the meter forget. -/
def System.acknowledge (s : System) : Option Nat → System
  | none => s
  | some seq =>
      { s with
        meter := s.meter.recordedThrough seq
        acks := ⟨seq, s.added.length⟩ :: s.acks }

def System.flush (s : System) : System :=
  if s.meter.backlog ≤ linesMax then { s with phase := .settled }
  else
    { s.send s.meter.unrecorded true with
      phase := .flushing s.meter.backlog s.meter.unrecorded
      backlogs := s.meter.backlog :: s.backlogs }

/-- The end of one turn of the flush: it goes on only where the backlog shrank. -/
def System.flushed (s : System) (backlog : Nat) : System :=
  if s.meter.backlog < backlog then s.flush else { s with phase := .settled }

/-- `INSERT … ON CONFLICT (work, seq) DO NOTHING` of each line. -/
def record (rows requests : List RequestUsage) : List RequestUsage :=
  requests.foldl (fun rows line => (Table.insertNew RequestUsage.seq line rows).2) rows

def highest (requests : List RequestUsage) : Option Nat :=
  (requests.map RequestUsage.seq).max?

inductive Handled where
  /-- Recorded; a renewal is answered. -/
  | recorded
  /-- Its lines recorded, and the renewal or the report refused. -/
  | refused
  /-- Unreadable: no line recorded, and a renewal answered without a number. -/
  | unread
deriving DecidableEq

inductive Event where
  /-- The provider answered one turn. -/
  | turn (usage : Usage) (instant : Int)
  | tick
  /-- The runner reads an answer, this one of those the daemon gave. -/
  | answered (answer : Nat)
  /-- The renewal is given up. -/
  | failed
  /-- The flush sends its body once more. -/
  | retry
  /-- The run ends, whatever it waits for. -/
  | ended
  /-- The report, or the report once more. -/
  | report
  /-- A body reaches the daemon. -/
  | deliver (sending : Nat) (handled : Handled)
deriving DecidableEq

def System.step (s : System) : Event → System
  | .turn usage instant =>
      match s.phase with
      | .idle | .renewing => s.turn usage instant
      | .flushing _ _ | .settled => s
  | .tick =>
      match s.phase with
      | .idle => { s.send s.meter.unrecorded true with phase := .renewing }
      | .renewing | .flushing _ _ | .settled => s
  | .answered answer =>
      match s.answers[answer]?, s.phase with
      | some through, .renewing => { s.acknowledge through with phase := .idle }
      | some through, .flushing backlog _ => (s.acknowledge through).flushed backlog
      | _, _ => s
  | .failed =>
      match s.phase with
      | .renewing => { s with phase := .idle }
      | .flushing backlog _ => s.flushed backlog
      | .idle | .settled => s
  | .retry =>
      match s.phase with
      | .flushing _ spent => s.send spent true
      | .idle | .renewing | .settled => s
  | .ended =>
      match s.phase with
      | .idle | .renewing => s.flush
      | .flushing _ _ | .settled => s
  | .report =>
      match s.phase with
      | .settled => s.send s.meter.unrecorded false
      | .idle | .renewing | .flushing _ _ => s
  | .deliver sending handled =>
      match s.sent[sending]? with
      | none => s
      | some sending =>
          { s with
            recorded :=
              if handled = .unread then s.recorded else record s.recorded sending.requests
            answers :=
              match sending.renewal, handled with
              | true, .recorded => highest sending.requests :: s.answers
              | true, .unread => none :: s.answers
              | _, _ => s.answers }

def System.start : System where
  meter := .new
  phase := .idle
  sent := []
  recorded := []
  answers := []
  added := []
  acks := []
  backlogs := []

/-! ## What a step keeps -/

theorem filter_eq_drop {Row : Type} {number : Row → Nat} {rows : List Row} (bound : Nat)
    (rising : rows.Pairwise fun early late => number early ≤ number late) :
    ∃ count ≤ rows.length, rows.filter (fun row => decide (bound < number row)) = rows.drop count ∧
      ∀ i row, rows[i]? = some row → (i < count ↔ number row ≤ bound) := by
  induction rows with
  | nil => exact ⟨0, Nat.le_refl _, rfl, fun i row found => by simp at found⟩
  | cons first rest ih =>
      obtain ⟨above, later⟩ := List.pairwise_cons.mp rising
      by_cases low : number first ≤ bound
      · obtain ⟨count, within, same, exactly⟩ := ih later
        refine ⟨count + 1, by simp only [List.length_cons]; omega, ?_, ?_⟩
        · rw [List.filter_cons, if_neg (by simpa using low), same, List.drop_succ_cons]
        · intro i row found
          cases i with
          | zero =>
              rw [List.getElem?_cons_zero, Option.some.injEq] at found
              subst found
              simp [low]
          | succ i =>
              rw [List.getElem?_cons_succ] at found
              rw [Nat.succ_lt_succ_iff]
              exact exactly i row found
      · have high : ∀ row ∈ first :: rest, bound < number row := by
          intro row member
          rcases List.mem_cons.mp member with rfl | inside
          · omega
          · have := above row inside
            omega
        refine ⟨0, Nat.zero_le _, ?_, ?_⟩
        · rw [List.drop_zero, List.filter_eq_self]
          intro row member
          exact decide_eq_true (high row member)
        · intro i row found
          have := high row (List.mem_of_getElem? found)
          omega

/-- The history of a run: what was sent, forgotten and recorded of the lines
added, each line by its place. -/
structure Sound (s : System) : Prop where
  next : s.meter.lines.next = min s.added.length runnerSeqMax
  numbered : ∀ i line, s.added[i]? = some line → line.seq = min i runnerSeqMax
  kept : s.meter.lines.unrecorded = s.added.drop s.forgotten
  covered : ∀ i < s.forgotten, ∃ ack ∈ s.acks, i < ack.lines ∧ min i runnerSeqMax ≤ ack.through
  forgot : ∀ ack ∈ s.acks, ack.lines ≤ s.added.length ∧
    ∀ i < ack.lines, min i runnerSeqMax ≤ ack.through → i < s.forgotten
  sent : ∀ sending ∈ s.sent, sending.forgotten ≤ s.forgotten ∧
    sending.requests <+: s.added.drop sending.forgotten ∧ sending.requests.length ≤ linesMax
  own : ∀ row ∈ s.recorded, s.added[row.seq]? = some row
  unique : (s.recorded.map RequestUsage.seq).Nodup
  billed : ∀ i < s.forgotten, i ≤ runnerSeqMax → ∀ line, s.added[i]? = some line →
    line ∈ s.recorded
  answered : ∀ through, some through ∈ s.answers → through < s.added.length ∧
    ∀ i ≤ through, ∀ line, s.added[i]? = some line → line ∈ s.recorded

theorem forgotten_le (s : System) : s.forgotten ≤ s.added.length := Nat.sub_le _ _

theorem sound_phase {s : System} (sound : Sound s) (phase : Phase) (backlogs : List Nat) :
    Sound { s with phase := phase, backlogs := backlogs } :=
  ⟨sound.next, sound.numbered, sound.kept, sound.covered, sound.forgot, sound.sent, sound.own,
    sound.unique, sound.billed, sound.answered⟩

theorem forgotten_turn {s : System} (sound : Sound s) (usage : Usage) (instant : Int) :
    (s.turn usage instant).forgotten = s.forgotten := by
  have bounded := forgotten_le s
  have backlog : s.meter.backlog = s.added.length - s.forgotten := by
    rw [Meter.backlog, sound.kept, List.length_drop]
  have longer : (s.turn usage instant).meter.backlog = s.meter.backlog + 1 := by
    rw [Meter.backlog, System.turn, Meter.add, List.length_append]
    rfl
  rw [System.forgotten, longer, System.turn, List.length_append, List.length_singleton]
  omega

theorem sound_turn {s : System} (sound : Sound s) (usage : Usage) (instant : Int) :
    Sound (s.turn usage instant) := by
  have bounded := forgotten_le s
  have old : ∀ i < s.added.length, (s.turn usage instant).added[i]? = s.added[i]? := by
    intro i within
    exact List.getElem?_append_left within
  have longer : (s.turn usage instant).added.length = s.added.length + 1 := by
    rw [System.turn, List.length_append, List.length_singleton]
  have dropped : ∀ count ≤ s.added.length, (s.turn usage instant).added.drop count =
      s.added.drop count ++ [s.meter.lines.line usage instant] := by
    intro count within
    exact List.drop_append_of_le_length within
  refine ⟨?_, ?_, ?_, ?_, ?_, ?_, ?_, sound.unique, ?_, ?_⟩
  · have next : (s.turn usage instant).meter.lines.next =
        min (s.meter.lines.next + 1) runnerSeqMax := rfl
    rw [next, longer, sound.next]
    omega
  · intro i line found
    by_cases within : i < s.added.length
    · exact sound.numbered i line ((old i within).symm.trans found)
    · have inside := (List.getElem?_eq_some_iff.mp found).1
      have last : i = s.added.length := by omega
      subst last
      rw [System.turn, List.getElem?_append_right (Nat.le_refl _), Nat.sub_self] at found
      cases found
      exact sound.next
  · rw [forgotten_turn sound, dropped _ bounded, ← sound.kept]
    rfl
  · rw [forgotten_turn sound]
    exact sound.covered
  · rw [forgotten_turn sound]
    intro ack member
    obtain ⟨within, forgot⟩ := sound.forgot ack member
    exact ⟨by omega, forgot⟩
  · rw [forgotten_turn sound]
    intro sending member
    obtain ⟨early, part, short⟩ := sound.sent sending member
    refine ⟨early, ?_, short⟩
    rw [dropped _ (Nat.le_trans early bounded)]
    exact part.trans (List.prefix_append _ _)
  · intro row member
    have found := sound.own row member
    rw [old _ (List.getElem?_eq_some_iff.mp found).1, found]
  · rw [forgotten_turn sound]
    intro i below low line found
    rw [old i (Nat.lt_of_lt_of_le below bounded)] at found
    exact sound.billed i below low line found
  · intro through member
    obtain ⟨within, answered⟩ := sound.answered through member
    refine ⟨by omega, ?_⟩
    intro i low line found
    rw [old i (Nat.lt_of_le_of_lt low within)] at found
    exact answered i low line found

theorem sound_send {s : System} (sound : Sound s) (renewal : Bool) :
    Sound (s.send s.meter.unrecorded renewal) := by
  refine ⟨sound.next, sound.numbered, sound.kept, sound.covered, sound.forgot, ?_, sound.own,
    sound.unique, sound.billed, sound.answered⟩
  intro sending member
  rcases List.mem_cons.mp member with rfl | older
  · refine ⟨Nat.le_refl _, ?_, ?_⟩
    · rw [Meter.unrecorded, sound.kept]
      exact List.take_prefix _ _
    · exact List.length_take_le _ _
  · exact sound.sent sending older

theorem rising {s : System} (sound : Sound s) :
    s.added.Pairwise fun early late => early.seq ≤ late.seq := by
  rw [List.pairwise_iff_getElem]
  intro i j first second order
  rw [sound.numbered i _ (List.getElem?_eq_getElem first),
    sound.numbered j _ (List.getElem?_eq_getElem second)]
  omega

/-- An answer at `seq` forgets the first lines, through the last one numbered at
or below it. -/
theorem forgotten_acknowledge {s : System} (sound : Sound s) (seq : Nat) :
    ∃ count, (s.meter.recordedThrough seq).lines.unrecorded = s.added.drop count ∧
      (s.acknowledge (some seq)).forgotten = count ∧ s.forgotten ≤ count ∧
        count ≤ s.added.length ∧ ∀ i, s.forgotten ≤ i → i < s.added.length →
          (i < count ↔ min i runnerSeqMax ≤ seq) := by
  have bounded := forgotten_le s
  obtain ⟨count, within, same, exactly⟩ := filter_eq_drop seq
    ((rising sound).sublist (List.drop_sublist s.forgotten s.added))
  rw [List.length_drop] at within
  have left : (s.meter.recordedThrough seq).lines.unrecorded =
      s.added.drop (s.forgotten + count) := by
    rw [← List.drop_drop, ← same, ← sound.kept]
    rfl
  refine ⟨s.forgotten + count, left, ?_, by omega, by omega, ?_⟩
  · simp only [System.acknowledge, System.forgotten, Meter.backlog, left, List.length_drop] at *
    omega
  · intro i above inside
    have found : (s.added.drop s.forgotten)[i - s.forgotten]? = some s.added[i] := by
      rw [List.getElem?_drop, Nat.add_sub_cancel' above, List.getElem?_eq_getElem inside]
    have cut := exactly _ _ found
    rw [sound.numbered i _ (List.getElem?_eq_getElem inside)] at cut
    rw [← cut]
    omega

theorem sound_acknowledge {s : System} (sound : Sound s) {through : Option Nat}
    (given : through ∈ s.answers) : Sound (s.acknowledge through) := by
  cases through with
  | none => exact sound
  | some seq =>
      obtain ⟨count, left, forgot, grown, within, exactly⟩ := forgotten_acknowledge sound seq
      obtain ⟨reached, recorded⟩ := sound.answered seq given
      refine ⟨sound.next, sound.numbered, ?_, ?_, ?_, ?_, sound.own, sound.unique, ?_,
        sound.answered⟩
      · rw [forgot]
        exact left
      · rw [forgot]
        intro i below
        by_cases before : i < s.forgotten
        · obtain ⟨ack, member, covers⟩ := sound.covered i before
          exact ⟨ack, List.mem_cons_of_mem _ member, covers⟩
        · have inside : i < s.added.length := Nat.lt_of_lt_of_le below within
          exact ⟨⟨seq, s.added.length⟩, List.mem_cons_self, inside,
            (exactly i (Nat.le_of_not_lt before) inside).mp below⟩
      · rw [forgot]
        intro ack member
        rcases List.mem_cons.mp member with rfl | older
        · refine ⟨Nat.le_refl _, ?_⟩
          intro i inside low
          by_cases before : i < s.forgotten
          · exact Nat.lt_of_lt_of_le before grown
          · exact (exactly i (Nat.le_of_not_lt before) inside).mpr low
        · obtain ⟨since, all⟩ := sound.forgot ack older
          exact ⟨since, fun i inside low => Nat.lt_of_lt_of_le (all i inside low) grown⟩
      · rw [forgot]
        intro sending member
        obtain ⟨early, carried⟩ := sound.sent sending member
        exact ⟨Nat.le_trans early grown, carried⟩
      · rw [forgot]
        intro i below low line found
        by_cases before : i < s.forgotten
        · exact sound.billed i before low line found
        · have inside : i < s.added.length := Nat.lt_of_lt_of_le below within
          have numbered := (exactly i (Nat.le_of_not_lt before) inside).mp below
          rw [Nat.min_eq_left low] at numbered
          exact recorded i numbered line found

/-! ## What the daemon keeps -/

section Recorded

variable {added rows requests : List RequestUsage} {first : Nat}

theorem insertNew_own {line : RequestUsage}
    (numbered : ∀ i line, added[i]? = some line → line.seq = min i runnerSeqMax)
    (own : ∀ row ∈ rows, added[row.seq]? = some row)
    (billed : ∀ i < first, i ≤ runnerSeqMax → ∀ line, added[i]? = some line → line ∈ rows)
    (found : added[first]? = some line) :
    (∀ row ∈ (Table.insertNew RequestUsage.seq line rows).2, added[row.seq]? = some row) ∧
      ∀ i < first + 1, i ≤ runnerSeqMax → ∀ line', added[i]? = some line' →
        line' ∈ (Table.insertNew RequestUsage.seq line rows).2 := by
  have number := numbered first line found
  have inside := (List.getElem?_eq_some_iff.mp found).1
  constructor
  · intro row member
    rcases Table.mem_insertNew member with old | ⟨rfl, fresh⟩
    · exact own row old
    · by_cases low : first ≤ runnerSeqMax
      · rw [number, Nat.min_eq_left low]
        exact found
      · -- The last number is taken by the line that reached it first.
        have last : added[runnerSeqMax]? = some added[runnerSeqMax] :=
          List.getElem?_eq_getElem (by omega)
        have held := billed runnerSeqMax (by omega) (Nat.le_refl _) _ last
        have same : added[runnerSeqMax].seq = row.seq := by
          rw [numbered _ _ last, number]
          omega
        exact absurd (List.mem_map.mpr ⟨_, held, same⟩) fresh
  · intro i below low other there
    by_cases before : i < first
    · exact Table.mem_insertNew_of_mem _ _ (billed i before low other there)
    · have same : i = first := by omega
      subst same
      rw [found] at there
      cases there
      have taken := Table.mem_key_insertNew RequestUsage.seq line rows
      obtain ⟨row, member, equal⟩ := List.mem_map.mp taken
      rcases Table.mem_insertNew member with old | ⟨rfl, _⟩
      · have held := own row old
        rw [equal, number, Nat.min_eq_left low, found] at held
        cases held
        exact member
      · exact member

theorem record_own
    (numbered : ∀ i line, added[i]? = some line → line.seq = min i runnerSeqMax)
    (own : ∀ row ∈ rows, added[row.seq]? = some row)
    (unique : (rows.map RequestUsage.seq).Nodup)
    (billed : ∀ i < first, i ≤ runnerSeqMax → ∀ line, added[i]? = some line → line ∈ rows)
    (part : requests <+: added.drop first) :
    (∀ row ∈ rows, row ∈ record rows requests) ∧
      (∀ row ∈ record rows requests, added[row.seq]? = some row) ∧
      ((record rows requests).map RequestUsage.seq).Nodup ∧
      ∀ i < first + requests.length, i ≤ runnerSeqMax → ∀ line, added[i]? = some line →
        line ∈ record rows requests := by
  induction requests generalizing rows first with
  | nil => exact ⟨fun _ member => member, own, unique, billed⟩
  | cons line rest ih =>
      obtain ⟨after, whole⟩ := part
      have found : added[first]? = some line := by
        have head := congrArg (fun lines => lines[0]?) whole
        simpa using head.symm
      have tail : rest <+: added.drop (first + 1) := by
        refine ⟨after, ?_⟩
        have short := congrArg List.tail whole
        rw [List.tail_drop] at short
        exact short
      obtain ⟨own', billed'⟩ := insertNew_own numbered own billed found
      obtain ⟨still, own'', unique'', billed''⟩ := ih own'
        (Table.insertNew_nodup _ line unique) billed' tail
      refine ⟨?_, own'', unique'', ?_⟩
      · intro row member
        exact still row (Table.mem_insertNew_of_mem _ line member)
      · intro i below
        rw [List.length_cons] at below
        exact billed'' i (by omega)

end Recorded

theorem sound_deliver {s : System} (sound : Sound s) {sending : Sending}
    (member : sending ∈ s.sent) (handled : Handled) :
    Sound { s with
      recorded := if handled = .unread then s.recorded else record s.recorded sending.requests
      answers :=
        match sending.renewal, handled with
        | true, .recorded => highest sending.requests :: s.answers
        | true, .unread => none :: s.answers
        | _, _ => s.answers } := by
  obtain ⟨early, part, _⟩ := sound.sent sending member
  obtain ⟨still, own, unique, billed⟩ := record_own sound.numbered sound.own sound.unique
    (fun i below => sound.billed i (Nat.lt_of_lt_of_le below early)) part
  -- What was recorded before stays recorded.
  have answered : ∀ through, some through ∈ s.answers → through < s.added.length ∧
      ∀ i ≤ through, ∀ line, s.added[i]? = some line →
        line ∈ record s.recorded sending.requests := by
    intro through given
    obtain ⟨within, recorded⟩ := sound.answered through given
    exact ⟨within, fun i low line found => still line (recorded i low line found)⟩
  have kept : ∀ i < s.forgotten, i ≤ runnerSeqMax → ∀ line, s.added[i]? = some line →
      line ∈ record s.recorded sending.requests :=
    fun i below low line found => still line (sound.billed i below low line found)
  have confirmed : ∀ through, highest sending.requests = some through →
      through < s.added.length ∧ ∀ i ≤ through, ∀ line, s.added[i]? = some line →
        line ∈ record s.recorded sending.requests := by
    intro through top
    obtain ⟨last, carried, rfl⟩ := List.mem_map.mp (List.max?_mem top)
    obtain ⟨place, inside, rfl⟩ := List.getElem_of_mem carried
    have found : s.added[sending.forgotten + place]? = some sending.requests[place] := by
      rw [← List.getElem?_drop, part.getElem inside]
      exact List.getElem?_eq_getElem (Nat.lt_of_lt_of_le inside part.length_le)
    have number := sound.numbered _ _ found
    have within := (List.getElem?_eq_some_iff.mp found).1
    refine ⟨by omega, ?_⟩
    intro i low line there
    exact billed i (by omega) (by omega) line there
  have here : ∀ answers : List (Option Nat), (∀ through, some through ∈ answers →
      through < s.added.length ∧ ∀ i ≤ through, ∀ line, s.added[i]? = some line →
        line ∈ record s.recorded sending.requests) →
      Sound { s with recorded := record s.recorded sending.requests, answers := answers } :=
    fun answers given => ⟨sound.next, sound.numbered, sound.kept, sound.covered, sound.forgot,
      sound.sent, own, unique, kept, given⟩
  cases handled with
  | refused =>
      rw [if_neg (by decide)]
      cases renewal : sending.renewal with
      | false => exact here _ answered
      | true => exact here _ answered
  | recorded =>
      rw [if_neg (by decide)]
      cases renewal : sending.renewal with
      | false => exact here _ answered
      | true =>
          apply here
          intro through given
          rcases List.mem_cons.mp given with top | older
          · exact confirmed through top.symm
          · exact answered through older
  | unread =>
      rw [if_pos rfl]
      refine ⟨sound.next, sound.numbered, sound.kept, sound.covered, sound.forgot, sound.sent,
        sound.own, sound.unique, sound.billed, ?_⟩
      intro through given
      cases renewal : sending.renewal with
      | false => exact sound.answered through (by simpa [renewal] using given)
      | true => exact sound.answered through (by simpa [renewal] using given)

/-! ## The flush -/

structure Paced (s : System) : Prop where
  shrinking : s.backlogs.Pairwise fun later earlier => later < earlier
  bounded : ∀ backlog ∈ s.backlogs, linesMax < backlog ∧ backlog ≤ s.added.length
  phase :
    match s.phase with
    | .idle | .renewing => s.backlogs = []
    | .flushing backlog spent =>
        s.backlogs.head? = some backlog ∧ s.meter.backlog ≤ backlog ∧ spent = s.meter.unrecorded
    | .settled => s.meter.backlog ≤ linesMax ∨ s.backlogs.head? = some s.meter.backlog

theorem backlog_le {s : System} (sound : Sound s) : s.meter.backlog ≤ s.added.length := by
  rw [Meter.backlog, sound.kept, List.length_drop]
  exact Nat.sub_le _ _

theorem flush_keeps {s : System} (sound : Sound s)
    (shrinking : s.backlogs.Pairwise fun later earlier => later < earlier)
    (bounded : ∀ backlog ∈ s.backlogs, linesMax < backlog ∧ backlog ≤ s.added.length)
    (least : ∀ backlog ∈ s.backlogs, s.meter.backlog < backlog) :
    Sound s.flush ∧ Paced s.flush := by
  rw [System.flush]
  by_cases fits : s.meter.backlog ≤ linesMax
  · rw [if_pos fits]
    exact ⟨sound_phase sound _ _, shrinking, bounded, .inl fits⟩
  · rw [if_neg fits]
    refine ⟨sound_phase (sound_send sound true) _ _, ?_, ?_, rfl, Nat.le_refl _, rfl⟩
    · exact List.pairwise_cons.mpr ⟨least, shrinking⟩
    · intro backlog member
      rcases List.mem_cons.mp member with rfl | older
      · exact ⟨Nat.lt_of_not_le fits, backlog_le sound⟩
      · exact bounded backlog older

theorem flushed_keeps {s : System} {backlog : Nat} (sound : Sound s)
    (shrinking : s.backlogs.Pairwise fun later earlier => later < earlier)
    (bounded : ∀ backlog ∈ s.backlogs, linesMax < backlog ∧ backlog ≤ s.added.length)
    (head : s.backlogs.head? = some backlog) (within : s.meter.backlog ≤ backlog) :
    Sound (s.flushed backlog) ∧ Paced (s.flushed backlog) := by
  rw [System.flushed]
  by_cases shrank : s.meter.backlog < backlog
  · rw [if_pos shrank]
    apply flush_keeps sound shrinking bounded
    obtain ⟨rest, whole⟩ := List.head?_eq_some_iff.mp head
    rw [whole, List.pairwise_cons] at shrinking
    intro earlier member
    rw [whole] at member
    rcases List.mem_cons.mp member with rfl | older
    · exact shrank
    · exact Nat.lt_trans shrank (shrinking.1 earlier older)
  · rw [if_neg shrank]
    have same : s.meter.backlog = backlog := by omega
    exact ⟨sound_phase sound _ _, shrinking, bounded, .inr (same ▸ head)⟩

theorem acknowledge_rest (s : System) (through : Option Nat) :
    (s.acknowledge through).backlogs = s.backlogs ∧
      (s.acknowledge through).added = s.added ∧
        (s.acknowledge through).meter.backlog ≤ s.meter.backlog := by
  cases through with
  | none => exact ⟨rfl, rfl, Nat.le_refl _⟩
  | some seq => exact ⟨rfl, rfl, List.length_filter_le _ _⟩

theorem step_keeps {s : System} (event : Event) (sound : Sound s) (paced : Paced s) :
    Sound (s.step event) ∧ Paced (s.step event) := by
  obtain ⟨shrinking, bounded, phase⟩ := paced
  have held : Paced s := ⟨shrinking, bounded, phase⟩
  cases event with
  | turn usage instant =>
      cases here : s.phase with
      | idle =>
          rw [here] at phase
          simp only [System.step, here]
          refine ⟨sound_turn sound usage instant, shrinking, ?_, ?_⟩
          · simp [System.turn, phase]
          · simpa [System.turn, here] using phase
      | renewing =>
          rw [here] at phase
          simp only [System.step, here]
          refine ⟨sound_turn sound usage instant, shrinking, ?_, ?_⟩
          · simp [System.turn, phase]
          · simpa [System.turn, here] using phase
      | flushing backlog spent =>
          simp only [System.step, here]
          exact ⟨sound, held⟩
      | settled =>
          simp only [System.step, here]
          exact ⟨sound, held⟩
  | tick =>
      cases here : s.phase with
      | idle =>
          rw [here] at phase
          simp only [System.step, here]
          exact ⟨sound_phase (sound_send sound true) _ _, shrinking, bounded, phase⟩
      | renewing | flushing backlog spent | settled =>
          simp only [System.step, here]
          exact ⟨sound, held⟩
  | answered answer =>
      simp only [System.step]
      cases given : s.answers[answer]? with
      | none => exact ⟨sound, held⟩
      | some through =>
          have read := sound_acknowledge sound (List.mem_of_getElem? given)
          obtain ⟨same, lines, fewer⟩ := acknowledge_rest s through
          cases here : s.phase with
          | idle | settled => exact ⟨sound, held⟩
          | renewing =>
              rw [here] at phase
              refine ⟨sound_phase read _ _, ?_, ?_, same.trans phase⟩
              · exact same ▸ shrinking
              · exact same ▸ lines ▸ bounded
          | flushing backlog spent =>
              rw [here] at phase
              obtain ⟨head, within, _⟩ := phase
              apply flushed_keeps read
              · exact same ▸ shrinking
              · exact same ▸ lines ▸ bounded
              · exact same ▸ head
              · exact Nat.le_trans fewer within
  | failed =>
      cases here : s.phase with
      | renewing =>
          rw [here] at phase
          simp only [System.step, here]
          exact ⟨sound_phase sound _ _, shrinking, bounded, phase⟩
      | flushing backlog spent =>
          rw [here] at phase
          simp only [System.step, here]
          exact flushed_keeps sound shrinking bounded phase.1 phase.2.1
      | idle | settled =>
          simp only [System.step, here]
          exact ⟨sound, held⟩
  | retry =>
      cases here : s.phase with
      | flushing backlog spent =>
          rw [here] at phase
          simp only [System.step, here]
          rw [phase.2.2]
          refine ⟨sound_send sound true, shrinking, bounded, ?_⟩
          simp only [System.send, here]
          exact phase
      | idle | renewing | settled =>
          simp only [System.step, here]
          exact ⟨sound, held⟩
  | ended =>
      cases here : s.phase with
      | idle | renewing =>
          rw [here] at phase
          simp only [System.step, here]
          apply flush_keeps sound shrinking bounded
          simp [phase]
      | flushing backlog spent | settled =>
          simp only [System.step, here]
          exact ⟨sound, held⟩
  | report =>
      cases here : s.phase with
      | settled =>
          rw [here] at phase
          simp only [System.step, here]
          refine ⟨sound_send sound false, shrinking, bounded, ?_⟩
          simp only [System.send, here]
          exact phase
      | idle | renewing | flushing backlog spent =>
          simp only [System.step, here]
          exact ⟨sound, held⟩
  | deliver sending handled =>
      simp only [System.step]
      cases found : s.sent[sending]? with
      | none => exact ⟨sound, held⟩
      | some sending =>
          exact ⟨sound_deliver sound (List.mem_of_getElem? found) handled, shrinking, bounded,
            phase⟩

def Sends (s next : System) : Prop :=
  next.sent = s.sent ∨
    ∃ renewal, next.sent = ⟨next.forgotten, next.meter.unrecorded, renewal⟩ :: s.sent

theorem sends_flush (s : System) : Sends s s.flush := by
  rw [System.flush]
  split
  · exact .inl rfl
  · exact .inr ⟨true, rfl⟩

theorem sends_flushed (s : System) (backlog : Nat) : Sends s (s.flushed backlog) := by
  rw [System.flushed]
  split
  · exact sends_flush s
  · exact .inl rfl

theorem sends_step {s : System} (event : Event) (paced : Paced s) : Sends s (s.step event) := by
  have phase := paced.phase
  cases event with
  | turn usage instant =>
      cases here : s.phase <;> simp only [System.step, here] <;> exact .inl rfl
  | tick =>
      cases here : s.phase with
      | idle =>
          simp only [System.step, here]
          exact .inr ⟨true, rfl⟩
      | renewing | flushing _ _ | settled =>
          simp only [System.step, here]
          exact .inl rfl
  | answered answer =>
      simp only [System.step]
      cases given : s.answers[answer]? with
      | none => exact .inl rfl
      | some through =>
          have unsent : (s.acknowledge through).sent = s.sent := by
            cases through with
            | none => rfl
            | some seq => rfl
          cases here : s.phase with
          | idle | settled => exact .inl rfl
          | renewing => exact .inl unsent
          | flushing backlog spent =>
              have sends := sends_flushed (s.acknowledge through) backlog
              rw [Sends, unsent] at sends
              exact sends
  | failed =>
      cases here : s.phase with
      | flushing backlog spent =>
          simp only [System.step, here]
          exact sends_flushed s backlog
      | idle | renewing | settled =>
          simp only [System.step, here]
          exact .inl rfl
  | retry =>
      cases here : s.phase with
      | flushing backlog spent =>
          rw [here] at phase
          simp only [System.step, here]
          rw [phase.2.2]
          exact .inr ⟨true, rfl⟩
      | idle | renewing | settled =>
          simp only [System.step, here]
          exact .inl rfl
  | ended =>
      cases here : s.phase with
      | idle | renewing =>
          simp only [System.step, here]
          exact sends_flush s
      | flushing _ _ | settled =>
          simp only [System.step, here]
          exact .inl rfl
  | report =>
      cases here : s.phase with
      | settled =>
          simp only [System.step, here]
          exact .inr ⟨false, rfl⟩
      | idle | renewing | flushing _ _ =>
          simp only [System.step, here]
          exact .inl rfl
  | deliver sending handled =>
      simp only [System.step]
      cases s.sent[sending]? with
      | none => exact .inl rfl
      | some sending => exact .inl rfl

/-! ## No line lost or billed twice -/

/-- What holds of every line the meter added, named by its place `i`, in a state
of a run. -/
structure UsageKept (s : System) : Prop where
  /-- A line is forgotten exactly when an answer covered it after it was added. -/
  acknowledged : ∀ i line, s.added[i]? = some line →
    (i < s.forgotten ↔ ∃ ack ∈ s.acks, i < ack.lines ∧ line.seq ≤ ack.through)
  /-- Whatever is sent next carries the oldest lines not forgotten. -/
  sends : ∀ event sending, (s.step event).sent = sending :: s.sent →
    sending.requests = ((s.step event).added.drop (s.step event).forgotten).take linesMax
  /-- A line once sent stays in the next body until it is forgotten. -/
  resent : ∀ sending ∈ s.sent, ∀ i < sending.forgotten + sending.requests.length,
    s.forgotten ≤ i → ∀ line, s.added[i]? = some line → line ∈ s.meter.unrecorded
  /-- The flush renews at ever smaller backlogs, each past one body. -/
  shrinking : s.backlogs.Pairwise (fun later earlier => later < earlier) ∧
    ∀ backlog ∈ s.backlogs, linesMax < backlog ∧ backlog ≤ s.added.length
  /-- The report leaves lines out only after a renewal that forgot none. -/
  left : s.phase = .settled →
    s.meter.unrecorded = s.added.drop s.forgotten ∨ s.backlogs.head? = some s.meter.backlog
  /-- A forgotten line is recorded, up to the last number. -/
  billed : ∀ i < s.forgotten, i ≤ runnerSeqMax → ∀ line, s.added[i]? = some line →
    line ∈ s.recorded
  /-- Each row is a line the meter added, and no line has two. -/
  once : (s.recorded.map RequestUsage.seq).Nodup ∧
    ∀ row ∈ s.recorded, s.added[row.seq]? = some row

theorem usage_kept {s : System} (sound : Sound s) (paced : Paced s) : UsageKept s := by
  refine ⟨?_, ?_, ?_, ⟨paced.shrinking, paced.bounded⟩, ?_, sound.billed, sound.unique, sound.own⟩
  · intro i line found
    rw [sound.numbered i line found]
    constructor
    · exact sound.covered i
    · rintro ⟨ack, member, inside, low⟩
      exact (sound.forgot ack member).2 i inside low
  · intro event sending sent
    have next := (step_keeps event sound paced).1
    rcases sends_step event paced with unsent | ⟨renewal, carried⟩
    · rw [unsent] at sent
      exact absurd sent.symm (List.cons_ne_self _ _)
    · rw [carried] at sent
      cases sent
      rw [Meter.unrecorded, next.kept]
  · intro sending member i within above line found
    obtain ⟨early, _, short⟩ := sound.sent sending member
    rw [Meter.unrecorded, sound.kept]
    apply List.mem_of_getElem? (i := i - s.forgotten)
    rw [List.getElem?_take_of_lt (by omega), List.getElem?_drop, Nat.add_sub_cancel' above]
    exact found
  · intro settled
    have phase := paced.phase
    rw [settled] at phase
    rcases phase with fits | gaveUp
    · left
      rw [← sound.kept]
      exact List.take_of_length_le fits
    · exact .inr gaveUp

theorem sound_new : Sound System.start := by
  refine ⟨?_, ?_, rfl, ?_, ?_, ?_, ?_, List.nodup_nil, ?_, ?_⟩
  all_goals simp [System.start, Meter.new, System.forgotten]

theorem paced_new : Paced System.start :=
  ⟨List.Pairwise.nil, fun _ member => absurd member List.not_mem_nil, rfl⟩

/-- However renewals are answered, lost or delivered late, and whatever the
flush meets, a line the meter added stays in its backlog until an answer covers
it, is then billed once, and is sent no more. -/
theorem usage_lines_kept (events : List Event) :
    UsageKept (Run.final System.step .start events) := by
  have keeps : ∀ s event, Sound s ∧ Paced s → Sound (System.step s event) ∧
      Paced (System.step s event) :=
    fun _ event held => step_keeps event held.1 held.2
  obtain ⟨sound, paced⟩ := Run.invariant_of_step (fun s => Sound s ∧ Paced s) keeps
    ⟨sound_new, paced_new⟩ events _ (Run.final_mem_states _ _ _)
  exact usage_kept sound paced

theorem turns_idle {s : System} (idle : s.phase = .idle) (usage : Usage) (instant : Int)
    (count : Nat) :
    let next := Run.final System.step s (List.replicate count (.turn usage instant))
    next.phase = .idle ∧ next.acks = s.acks ∧ next.sent = s.sent ∧
      next.added.length = s.added.length + count := by
  induction count generalizing s with
  | zero => exact ⟨idle, rfl, rfl, rfl⟩
  | succ count ih =>
      have one : s.step (.turn usage instant) = s.turn usage instant := by
        simp only [System.step, idle]
      rw [List.replicate_succ, Run.final, one]
      obtain ⟨phase, acks, sent, added⟩ := ih (s := s.turn usage instant) idle
      refine ⟨phase, acks, sent, ?_⟩
      rw [added, System.turn, List.length_append, List.length_singleton]
      omega

theorem flush_leaves_newest {s : System} (sound : Sound s) (idle : s.phase = .idle)
    (acks : s.acks = []) (sent : s.sent = []) (longer : linesMax < s.added.length)
    (low : linesMax ≤ runnerSeqMax) :
    let next := Run.final System.step s [.ended, .failed, .report]
    next.phase = .settled ∧ next.sent.map Sending.renewal = [false, true] ∧ next.acks = [] ∧
      ∃ line ∈ next.added, ∀ sending ∈ next.sent, line ∉ sending.requests := by
  -- No answer was read, so nothing is forgotten.
  have none_forgotten : s.forgotten = 0 := by
    rcases Nat.eq_zero_or_pos s.forgotten with none | some
    · exact none
    · obtain ⟨ack, member, _⟩ := sound.covered 0 some
      rw [acks] at member
      exact absurd member List.not_mem_nil
  have past : ¬s.meter.backlog ≤ linesMax := by
    rw [Meter.backlog, sound.kept, none_forgotten, List.drop_zero]
    omega
  have oldest : s.meter.unrecorded = s.added.take linesMax := by
    rw [Meter.unrecorded, sound.kept, none_forgotten, List.drop_zero]
  have unsent : s.added[linesMax] ∉ s.meter.unrecorded := by
    intro carried
    rw [oldest] at carried
    obtain ⟨place, inside, same⟩ := List.getElem_of_mem carried
    rw [List.length_take] at inside
    rw [List.getElem_take] at same
    have first := sound.numbered place _ (List.getElem?_eq_getElem (by omega))
    have second := sound.numbered linesMax _ (List.getElem?_eq_getElem longer)
    rw [same, second] at first
    omega
  simp only [Run.final, System.step, idle, System.flush, if_neg past, System.flushed, System.send,
    Nat.lt_irrefl, if_false]
  refine ⟨trivial, ?_, acks, s.added[linesMax], List.getElem_mem longer, ?_⟩
  · rw [sent]
    rfl
  · rw [sent]
    intro sending member
    rcases List.mem_cons.mp member with rfl | older
    · exact unsent
    · rcases List.mem_cons.mp older with rfl | none
      · exact unsent
      · exact absurd none List.not_mem_nil

def failedFlush : System :=
  Run.final System.step .start
    (List.replicate (linesMax + 1) (.turn ⟨5, 0, 0, 0, 0, 2⟩ 0) ++ [.ended, .failed, .report])

/-- The report carries the oldest lines: the newest one is never sent, and no
answer covered it. -/
theorem failed_flush_leaves_newest :
    failedFlush.phase = .settled ∧ failedFlush.sent.map Sending.renewal = [false, true] ∧
      failedFlush.acks = [] ∧
        ∃ line ∈ failedFlush.added, ∀ sending ∈ failedFlush.sent, line ∉ sending.requests := by
  have idle : System.start.phase = .idle := rfl
  obtain ⟨idle, acks, sent, added⟩ :=
    turns_idle idle ⟨5, 0, 0, 0, 0, 2⟩ 0 (linesMax + 1)
  have sound := (Run.invariant_of_step (fun s => Sound s ∧ Paced s)
    (fun _ event held => step_keeps event held.1 held.2) ⟨sound_new, paced_new⟩
    (List.replicate (linesMax + 1) (.turn ⟨5, 0, 0, 0, 0, 2⟩ 0)) _
    (Run.final_mem_states _ _ _)).1
  rw [failedFlush, Run.final_append]
  refine flush_leaves_newest sound idle acks sent ?_ (by decide)
  rw [added]
  exact Nat.lt_of_lt_of_le (Nat.lt_succ_self linesMax) (Nat.le_add_left _ _)

end Agentsfleet.Supervisor
