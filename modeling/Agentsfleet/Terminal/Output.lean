import Agentsfleet.Library.Run
import Agentsfleet.Library.Text
import Agentsfleet.Library.Utf8
import Mathlib.Algebra.GroupWithZero.Nat

/-!
# What a process said

A process's output as a call reads it back: whole, with a marker where each gap
fell, or cut in the middle around one marker.  A text is its characters; the
bytes of it are those they encode to.
-/

set_option autoImplicit false

namespace Agentsfleet.Terminal.Output

open Agentsfleet.Library
open Agentsfleet.Library.Utf8 (encode encode_append lossy Valid)

inductive Ending where
  | exited (code : Int)
  | signaled (signal : Int)
  | timedOut
  | outOfMemory
  | interrupted
deriving DecidableEq

inductive ProcessEvent where
  | output (data : List UInt8)
  | omitted (bytes : Nat)
  | ended (ending : Ending) (outputAbandoned : Bool)

/-- A process's output as it arrived, and the bytes dropped unread between its parts. -/
structure Collected where
  bytes : List UInt8
  gaps : List (Nat × Nat)
  abandoned : Bool

namespace Collected

/-- `Collected::default`. -/
def new : Collected := ⟨[], [], false⟩

def take (c : Collected) : ProcessEvent → Collected × Option Ending
  | .output data => ({ c with bytes := c.bytes ++ data }, none)
  | .omitted bytes => ({ c with gaps := c.gaps ++ [(c.bytes.length, bytes)] }, none)
  | .ended ending outputAbandoned => ({ c with abandoned := outputAbandoned }, some ending)

def takeAll (c : Collected) : List ProcessEvent → Collected × Option Ending
  | [] => (c, none)
  | event :: rest =>
      match c.take event with
      | (c, some ending) => (c, some ending)
      | (c, none) => takeAll c rest

/-- `arrived`, over the events that are ready and whether they finished. -/
def arrived (c : Collected) (events : List ProcessEvent) (finished : Bool) :
    Collected × Option Ending :=
  match c.takeAll events with
  | (c, some ending) => (c, some ending)
  | (c, none) => (c, if finished then some .interrupted else none)

end Collected

/-- `text` with `line` after it, on a line of its own. -/
def withLine (text line : List Char) : List Char :=
  if text ≠ [] ∧ text.getLast? ≠ some '\n' then text ++ '\n' :: line else text ++ line

/-- How `omitted` bytes not shown read. -/
def marker (omitted : Nat) : List Char :=
  "... ".toList ++ (Nat.repr omitted).toList ++ " bytes omitted ...".toList

def abandonedLine : List Char :=
  "... the process ended with its output still open; what was written after is not shown ...".toList

/-- `text`'s first and last halves of `budget` bytes, cut on character boundaries. -/
def edges (text : List Char) (budget : Nat) : List Char × List Char :=
  if Text.bytes text ≤ budget then (text, [])
  else
    (Text.floor (budget / 2) text, Text.ceil (Text.bytes text - (budget - budget / 2)) text)

/-- The largest `u64`. -/
def countMax : Nat := 2 ^ 64 - 1

namespace Collected

/-- `bytes.get(from..at)`, empty where that is no range of `bytes`. -/
def slice (c : Collected) (from_ at_ : Nat) : List UInt8 :=
  if from_ ≤ at_ ∧ at_ ≤ c.bytes.length then (c.bytes.drop from_).take (at_ - from_) else []

/-- The runs before the gaps left, each with its marker, after what is `shown`. -/
def showGaps (c : Collected) (shown : List Char) (from_ : Nat) :
    List (Nat × Nat) → List Char × Nat
  | [] => (shown, from_)
  | (at_, bytes) :: rest =>
      showGaps c (withLine (shown ++ lossy (c.slice from_ at_)) (marker bytes) ++ ['\n']) at_ rest

/-- The whole output, a marker on a line of its own where each gap fell. -/
def withGaps (c : Collected) : List Char :=
  let (shown, from_) := c.showGaps [] 0 c.gaps
  shown ++ lossy (c.slice from_ c.bytes.length)

/-- The first and last halves of `whole` around one marker. -/
def cut (c : Collected) (whole : List Char) (budget : Nat) : List Char :=
  let (head, tail) := edges whole budget
  let cut := Text.bytes whole - Text.bytes head - Text.bytes tail
  let omitted := c.gaps.foldl (fun sum gap => min (sum + gap.2) countMax) (min cut countMax)
  let marked := withLine head (marker omitted)
  if tail = [] then marked else marked ++ '\n' :: tail

def shown (c : Collected) (budget : Nat) : List Char :=
  let whole := lossy c.bytes
  if budget < Text.bytes whole then c.cut whole budget
  else if c.gaps.isEmpty then whole
  else c.withGaps

def text (c : Collected) (budget : Nat) : List Char :=
  if c.abandoned then withLine (c.shown budget) abandonedLine else c.shown budget

end Collected

/-! ## Where the gaps fell -/

def gapsFrom (start : Nat) : List (List UInt8 × Nat) → List (Nat × Nat)
  | [] => []
  | (run, bytes) :: rest =>
      (start + run.length, bytes) :: gapsFrom (start + run.length) rest

theorem gapsFrom_append (start : Nat) (runs : List (List UInt8 × Nat)) (run : List UInt8)
    (bytes : Nat) :
    gapsFrom start (runs ++ [(run, bytes)]) =
      gapsFrom start runs ++ [(start + (runs.flatMap Prod.fst ++ run).length, bytes)] := by
  induction runs generalizing start with
  | nil => rfl
  | cons first rest ih =>
      obtain ⟨before, dropped⟩ := first
      rw [List.cons_append, gapsFrom, ih, List.flatMap_cons, List.append_assoc,
        @List.length_append _ before, ← Nat.add_assoc]
      rfl

def Runs (c : Collected) (runs : List (List UInt8 × Nat)) (rest : List UInt8) : Prop :=
  c.bytes = runs.flatMap Prod.fst ++ rest ∧ c.gaps = gapsFrom 0 runs

theorem take_runs {c : Collected} {runs : List (List UInt8 × Nat)} {rest : List UInt8}
    (held : Runs c runs rest) (event : ProcessEvent) :
    ∃ runs rest, Runs (c.take event).1 runs rest := by
  obtain ⟨bytes, gaps⟩ := held
  cases event with
  | output data =>
      refine ⟨runs, rest ++ data, ?_, gaps⟩
      rw [Collected.take, bytes, List.append_assoc]
  | omitted dropped =>
      refine ⟨runs ++ [(rest, dropped)], [], ?_, ?_⟩
      · rw [List.flatMap_append, List.append_nil, List.flatMap_singleton]
        exact bytes
      · rw [gapsFrom_append, ← bytes, ← gaps, Nat.zero_add]
        rfl
  | ended ending abandoned => exact ⟨runs, rest, bytes, gaps⟩

theorem takeAll_runs {c : Collected} (held : ∃ runs rest, Runs c runs rest)
    (events : List ProcessEvent) : ∃ runs rest, Runs (c.takeAll events).1 runs rest := by
  induction events generalizing c with
  | nil => exact held
  | cons event rest ih =>
      obtain ⟨runs, after, held⟩ := held
      have taken := take_runs held event
      rw [Collected.takeAll]
      split
      · rename_i next ending answer
        rw [answer] at taken
        exact taken
      · rename_i next answer
        rw [answer] at taken
        exact ih taken

def read (c : Collected) (ready : List ProcessEvent × Bool) : Collected :=
  (c.arrived ready.1 ready.2).1

theorem read_runs (c : Collected) (ready : List ProcessEvent × Bool)
    (held : ∃ runs rest, Runs c runs rest) : ∃ runs rest, Runs (read c ready) runs rest := by
  have taken := takeAll_runs held ready.1
  rw [read, Collected.arrived]
  split
  · rename_i next ending answer
    rw [answer] at taken
    exact taken
  · rename_i next answer
    rw [answer] at taken
    exact taken

/-! ## What is shown -/

/-- Some runs after what is `shown`, a marker on a line of its own after each. -/
def spell (shown : List Char) : List (List UInt8 × Nat) → List Char
  | [] => shown
  | (run, bytes) :: rest => spell (withLine (shown ++ lossy run) (marker bytes) ++ ['\n']) rest

theorem showGaps_spec {c : Collected} {past : List UInt8} {runs : List (List UInt8 × Nat)}
    {rest : List UInt8} (bytes : c.bytes = past ++ (runs.flatMap Prod.fst ++ rest))
    (shown : List Char) :
    c.showGaps shown past.length (gapsFrom past.length runs) =
      (spell shown runs, (past ++ runs.flatMap Prod.fst).length) := by
  induction runs generalizing past shown with
  | nil =>
      rw [List.flatMap_nil, List.append_nil]
      rfl
  | cons first others ih =>
      obtain ⟨run, dropped⟩ := first
      rw [List.flatMap_cons, List.append_assoc] at bytes
      have here : c.slice past.length (past.length + run.length) = run := by
        rw [Collected.slice, bytes, if_pos ⟨Nat.le_add_right _ _, by
          simp only [List.length_append]
          omega⟩, List.drop_left, Nat.add_sub_cancel_left, List.take_left]
      rw [gapsFrom, Collected.showGaps, here, spell, List.flatMap_cons, ← List.append_assoc]
      have regrouped : c.bytes = (past ++ run) ++ (others.flatMap Prod.fst ++ rest) := by
        rw [bytes, List.append_assoc]
      have next := ih regrouped (withLine (shown ++ lossy run) (marker dropped) ++ ['\n'])
      rw [List.length_append] at next
      exact next

theorem withGaps_spec {c : Collected} {runs : List (List UInt8 × Nat)} {rest : List UInt8}
    (held : Runs c runs rest) : c.withGaps = spell [] runs ++ lossy rest := by
  obtain ⟨bytes, gaps⟩ := held
  have walked := @showGaps_spec c [] runs rest bytes []
  rw [List.length_nil, ← gaps, List.nil_append] at walked
  have last : c.slice (runs.flatMap Prod.fst).length c.bytes.length = rest := by
    rw [Collected.slice, bytes, List.length_append, if_pos ⟨Nat.le_add_right _ _, Nat.le_refl _⟩,
      List.drop_left, Nat.add_sub_cancel_left, List.take_length]
  rw [Collected.withGaps, walked]
  dsimp only
  rw [last]

theorem bytes_eq_encode (text : List Char) : Text.bytes text = (encode text).length := by
  induction text with
  | nil => rfl
  | cons c rest ih =>
      rw [Text.bytes, Utf8.encode_cons, List.length_append, String.length_utf8EncodeChar, ih]

theorem omitted_eq (gaps : List (Nat × Nat)) (cut : Nat) :
    gaps.foldl (fun sum gap => min (sum + gap.2) countMax) (min cut countMax) =
      min (cut + (gaps.map Prod.snd).sum) countMax := by
  induction gaps generalizing cut with
  | nil => rfl
  | cons gap rest ih =>
      have step : min (min cut countMax + gap.2) countMax = min (cut + gap.2) countMax := by omega
      rw [List.foldl_cons, step, ih, List.map_cons, List.sum_cons, Nat.add_assoc]

theorem edges_spec {text : List Char} {budget : Nat} (past : budget < Text.bytes text) :
    ∃ mid, text = (edges text budget).1 ++ mid ++ (edges text budget).2 ∧ mid ≠ [] ∧
      Text.bytes (edges text budget).1 ≤ budget / 2 ∧
      Text.bytes (edges text budget).2 ≤ budget - budget / 2 := by
  rw [edges, if_neg (Nat.not_le.mpr past)]
  dsimp only
  have low := Text.bytes_floor_le (budget / 2) text
  have high := Text.bytes_ceil_le (Text.bytes text - (budget - budget / 2)) text
  obtain ⟨after, front⟩ := Text.floor_prefix (budget / 2) text
  obtain ⟨before, back⟩ := Text.ceil_suffix (Text.bytes text - (budget - budget / 2)) text
  generalize Text.floor (budget / 2) text = head at *
  generalize Text.ceil (Text.bytes text - (budget - budget / 2)) text = last at *
  have total : Text.bytes text = Text.bytes head + Text.bytes after := by
    rw [← front, Text.bytes_append]
  -- The halves do not meet: together they are within the budget.
  have apart : last.length < after.length := by
    by_contra meets
    obtain ⟨more, longer⟩ := List.suffix_of_suffix_length_le (⟨head, front⟩ : after <:+ text)
      ⟨before, back⟩ (Nat.not_lt.mp meets)
    have bound : Text.bytes last = Text.bytes more + Text.bytes after := by
      rw [← longer, Text.bytes_append]
    omega
  obtain ⟨mid, whole⟩ := List.suffix_of_suffix_length_le (⟨before, back⟩ : last <:+ text)
    ⟨head, front⟩ (Nat.le_of_lt apart)
  refine ⟨mid, ?_, ?_, low, by omega⟩
  · rw [List.append_assoc, whole, front]
  · rintro rfl
    rw [← whole] at apart
    exact absurd apart (Nat.lt_irrefl _)

theorem encode_lossy {bytes : List UInt8} (valid : Valid bytes) : encode (lossy bytes) = bytes := by
  obtain ⟨chars, rfl⟩ := valid
  rw [Utf8.lossy_encode]

/-- What fits is shown run by run, a marker after each run that a gap follows; runs that are text
are shown as they are, within the budget. -/
def ShowsWhole (c : Collected) (budget : Nat) (shown : List Char) : Prop :=
  ∃ runs rest, Runs c runs rest ∧ shown = spell [] runs ++ lossy rest ∧
    ((∀ run ∈ runs, Valid run.1) → Valid rest →
      runs.flatMap (fun run => encode (lossy run.1)) ++ encode (lossy rest) = c.bytes ∧
        c.bytes.length ≤ budget)

/-- What does not fit is shown as a head and a tail within the budget around one marker, which
counts what is between them and every gap. -/
def ShowsEdges (c : Collected) (budget : Nat) (shown : List Char) : Prop :=
  ∃ head mid tail count, c.bytes = head ++ mid ++ tail ∧ mid ≠ [] ∧
    lossy c.bytes = lossy head ++ lossy mid ++ lossy tail ∧
    (encode (lossy head)).length + (encode (lossy tail)).length ≤ budget ∧
    shown = withLine (lossy head) (marker count) ++
      (if lossy tail = [] then [] else '\n' :: lossy tail) ∧
    count = min ((encode (lossy mid)).length + (c.gaps.map Prod.snd).sum) countMax ∧
    (Valid mid → encode (lossy mid) = mid)

theorem valid_append {front back : List UInt8} (first : Valid front) (last : Valid back) :
    Valid (front ++ back) := by
  obtain ⟨chars, rfl⟩ := first
  obtain ⟨others, rfl⟩ := last
  exact ⟨chars ++ others, (encode_append chars others).symm⟩

theorem flatMap_runs {runs : List (List UInt8 × Nat)} (valid : ∀ run ∈ runs, Valid run.1) :
    runs.flatMap (fun run => encode (lossy run.1)) = runs.flatMap Prod.fst ∧
      Valid (runs.flatMap Prod.fst) := by
  induction runs with
  | nil => exact ⟨rfl, [], rfl⟩
  | cons run rest ih =>
      obtain ⟨same, text⟩ := ih fun other member => valid other (List.mem_cons_of_mem _ member)
      have first := valid run List.mem_cons_self
      rw [List.flatMap_cons, List.flatMap_cons, same, encode_lossy first]
      exact ⟨rfl, valid_append first text⟩

theorem shown_whole {c : Collected} (held : ∃ runs rest, Runs c runs rest) {budget : Nat}
    (fits : Text.bytes (lossy c.bytes) ≤ budget) : ShowsWhole c budget (c.shown budget) := by
  have within {runs : List (List UInt8 × Nat)} {rest : List UInt8}
      (whole : c.bytes = runs.flatMap Prod.fst ++ rest) (valid : ∀ run ∈ runs, Valid run.1)
      (last : Valid rest) :
      runs.flatMap (fun run => encode (lossy run.1)) ++ encode (lossy rest) = c.bytes ∧
        c.bytes.length ≤ budget := by
    obtain ⟨same, text⟩ := flatMap_runs valid
    have all : Valid c.bytes := whole ▸ valid_append text last
    rw [bytes_eq_encode, encode_lossy all] at fits
    rw [same, encode_lossy last]
    exact ⟨whole.symm, fits⟩
  obtain ⟨runs, rest, held⟩ := held
  rw [Collected.shown, if_neg (Nat.not_lt.mpr fits)]
  split
  · rename_i none_fell
    -- Without a gap there is the one run.
    exact ⟨[], c.bytes, ⟨rfl, List.isEmpty_iff.mp none_fell⟩, rfl, within rfl⟩
  · exact ⟨runs, rest, held, withGaps_spec held, within held.1⟩

theorem shown_edges (c : Collected) {budget : Nat} (past : budget < Text.bytes (lossy c.bytes)) :
    ShowsEdges c budget (c.shown budget) := by
  obtain ⟨mid, whole, some_cut, low, high⟩ := edges_spec past
  rw [Collected.shown, if_pos past, Collected.cut]
  rcases halves : edges (lossy c.bytes) budget with ⟨head, tail⟩
  rw [halves] at whole low high
  dsimp only at whole low high ⊢
  rw [omitted_eq]
  have total := congrArg Text.bytes whole
  rw [Text.bytes_append, Text.bytes_append] at total
  have between : Text.bytes (lossy c.bytes) - Text.bytes head - Text.bytes tail =
      (encode mid).length := by
    rw [← bytes_eq_encode]
    omega
  rw [between]
  -- The text is cut between characters, and each of them stands for bytes of its own.
  obtain ⟨most, last, bytes, shown, rfl⟩ := Utf8.lossy_eq_append whole
  obtain ⟨first, middle, rfl, rfl, rfl⟩ := Utf8.lossy_eq_append shown
  refine ⟨first, middle, last, _, bytes, ?_, whole, ?_, ?_, rfl, encode_lossy⟩
  · rintro rfl
    exact some_cut rfl
  · rw [← bytes_eq_encode, ← bytes_eq_encode]
    omega
  · split
    · rw [List.append_nil]
    · rfl

/-- Over any reads of a process and any budget: output whose text fits is shown whole, each gap
at its own marker; other output is a head and a tail within the budget around one marker. -/
theorem output_accounted (reads : List (List ProcessEvent × Bool)) (budget : Nat) :
    let c := Run.final read Collected.new reads
    ∃ shown, c.text budget = (if c.abandoned then withLine shown abandonedLine else shown) ∧
      (Text.bytes (lossy c.bytes) ≤ budget → ShowsWhole c budget shown) ∧
      (budget < Text.bytes (lossy c.bytes) → ShowsEdges c budget shown) ∧
      ∀ bytes, Valid bytes → encode (lossy bytes) = bytes := by
  intro c
  have held := Run.invariant_of_step (fun c => ∃ runs rest, Runs c runs rest) read_runs
    ⟨[], [], rfl, rfl⟩ reads c (Run.final_mem_states _ _ _)
  exact ⟨c.shown budget, rfl, shown_whole held, shown_edges c, fun _ => encode_lossy⟩

/-- Not the text but the output in it is within the budget: three bytes that are no text, none
of them shown, read as a marker past the budget, which counts the nine that stand in for them. -/
theorem marker_past_budget :
    (¬ ∀ (reads : List (List ProcessEvent × Bool)) (budget : Nat),
        Text.bytes ((Run.final read Collected.new reads).text budget) ≤ budget) ∧
      ∃ reads : List (List ProcessEvent × Bool),
        (Run.final read Collected.new reads).bytes.length = 3 ∧
          (Run.final read Collected.new reads).text 3 = marker 9 := by
  constructor
  · intro within
    have longer := within [([.output [0xff, 0xff, 0xff], .ended (.exited 0) false], true)] 3
    revert longer
    decide
  · exact ⟨[([.output [0xff, 0xff, 0xff], .ended (.exited 0) false], true)], by decide, by decide⟩

end Agentsfleet.Terminal.Output
