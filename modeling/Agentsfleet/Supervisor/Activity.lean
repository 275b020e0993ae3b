import Agentsfleet.Library.Run
import Agentsfleet.Library.Table
import Mathlib.Data.List.Perm.Basic

/-!
# The activity pump

A lease's live-tail frames: the sink's channel, the batcher, the bounded channel
of batches and the poster with one batch in flight.  Every one of them may be
cut short by dropping the pump, which counts what it still holds.
-/

set_option autoImplicit false

namespace Agentsfleet.Supervisor

open Agentsfleet.Library

def maxBatchesHeld : Nat := 4
/-- The most frame bytes one batch carries; a single larger frame rides alone. -/
def maxBatchBytes : Nat := 64 * 1024

/-- Which frames go the moment they arrive rather than on the tick. -/
structure Early where
  frameTried : Bool
  answerTried : Bool
deriving DecidableEq, Repr

/-- Whether the batch a frame just joined should go now. -/
def Early.wants (early : Early) (answer : Bool) : Bool × Early :=
  (!early.frameTried || (answer && !early.answerTried), ⟨true, early.answerTried || answer⟩)

/-- Where the batcher is: taking frames, waiting for room for the run's last
batch, or through. -/
inductive Batcher where
  | taking
  | closing
  | through
deriving DecidableEq, Repr

/-- The pump with what it posts to.  `emitted` and `taken` record the frames
that came and that left the sink's channel; the batches that ended are kept by
how, and the counters are the families `record::frames_dropped` adds to. -/
structure Pump (Frame : Type) where
  frames : List Frame
  closed : Bool
  batcher : Batcher
  batch : List Frame
  bytes : Nat
  posts : List (List Frame)
  flight : Option (List Frame)
  early : Early
  dropped : Nat
  held : Nat
  emitted : List Frame
  taken : List Frame
  posted : List (List Frame)
  failed : List (List Frame)
  lost : List (List Frame)
  countFailed : Nat
  countBackpressure : Nat
  countAbandoned : Nat
  gone : Bool

inductive PumpEvent (Frame : Type) where
  /-- The run hands the sink a frame. -/
  | emit (frame : Frame)
  /-- The sink is dropped with the run. -/
  | finish
  /-- The batcher's `recv` answers. -/
  | take
  | tick
  /-- The last batch finds room. -/
  | room
  /-- The poster takes the next batch. -/
  | next
  /-- The post in flight ends. -/
  | answered (delivered : Bool)
  | drop

namespace Pump

variable {Frame : Type}

def start : Pump Frame :=
  ⟨[], false, .taking, [], 0, [], none, ⟨false, false⟩, 0, 0, [], [], [], [], [], 0, 0, 0, false⟩

section Steps

variable (size : Frame → Nat) (isAnswer : Frame → Bool)

/-- `mpsc::Sender::try_send` on the bounded channel. -/
def hasRoom (s : Pump Frame) : Bool := decide (s.posts.length < maxBatchesHeld - 1)

/-- `offer`: hands the batch to the poster if a slot is free. -/
def offer (s : Pump Frame) : Pump Frame :=
  if s.hasRoom then { s with posts := s.posts ++ [s.batch], batch := [], bytes := 0 } else s

/-- `count_drop`, of a full batch every slot refused. -/
def countDrop (s : Pump Frame) (batch : List Frame) : Pump Frame :=
  { s with
    held := s.held - batch.length
    countBackpressure := s.countBackpressure + batch.length
    dropped := s.dropped + 1
    lost := s.lost ++ [batch] }

def full (s : Pump Frame) : Pump Frame :=
  let emptied := { s with batch := [], bytes := 0 }
  if s.hasRoom then { emptied with posts := s.posts ++ [s.batch] } else emptied.countDrop s.batch

def push (s : Pump Frame) (frame : Frame) : Pump Frame :=
  { s with
    batch := s.batch ++ [frame]
    held := s.held + 1
    bytes := s.bytes + size frame
    early := (s.early.wants (isAnswer frame)).2 }

def receive (s : Pump Frame) (frame : Frame) : Pump Frame :=
  let s := if !s.batch.isEmpty && decide (maxBatchBytes < s.bytes + size frame) then s.full else s
  let now := (s.early.wants (isAnswer frame)).1
  let s := s.push size isAnswer frame
  if now then s.offer else s

def take (s : Pump Frame) : Pump Frame :=
  match s.batcher, s.frames with
  | .taking, frame :: rest =>
      { s with frames := rest, taken := s.taken ++ [frame] }.receive size isAnswer frame
  | .taking, [] =>
      if s.closed then
        { s with batcher := if s.batch.isEmpty then .through else .closing }
      else s
  | _, _ => s

def tick (s : Pump Frame) : Pump Frame :=
  if s.batcher = .taking ∧ s.frames = [] ∧ s.closed = false ∧ s.batch ≠ [] then s.offer else s

def room (s : Pump Frame) : Pump Frame :=
  if s.batcher = .closing ∧ s.hasRoom = true then
    { s with posts := s.posts ++ [s.batch], batch := [], batcher := .through }
  else s

def next (s : Pump Frame) : Pump Frame :=
  match s.flight, s.posts with
  | none, batch :: rest => { s with flight := some batch, posts := rest }
  | _, _ => s

/-- `post` returns, and the poster counts the batch off. -/
def answered (s : Pump Frame) (delivered : Bool) : Pump Frame :=
  match s.flight with
  | none => s
  | some batch =>
      let s := { s with flight := none, held := s.held - batch.length }
      if delivered then { s with posted := s.posted ++ [batch] }
      else
        { s with
          failed := s.failed ++ [batch]
          countFailed := s.countFailed + batch.length }

/-- `Drop`: what is still held is counted abandoned. -/
def drop (s : Pump Frame) : Pump Frame :=
  { s with gone := true, countAbandoned := s.held + s.frames.length }

def step (s : Pump Frame) (event : PumpEvent Frame) : Pump Frame :=
  if s.gone then s
  else
    match event with
    | .emit frame =>
        if s.closed then s
        else { s with frames := s.frames ++ [frame], emitted := s.emitted ++ [frame] }
    | .finish => { s with closed := true }
    | .take => s.take size isAnswer
    | .tick => s.tick
    | .room => s.room
    | .next => s.next
    | .answered delivered => s.answered delivered
    | .drop => s.drop

end Steps

/-! ## What is kept -/

def inHand (s : Pump Frame) : List Frame := s.flight.getD [] ++ s.posts.flatten ++ s.batch

def ended (s : Pump Frame) : List Frame := s.posted.flatten ++ s.failed.flatten ++ s.lost.flatten

def Fits (size : Frame → Nat) (batch : List Frame) : Prop :=
  Table.weight size batch ≤ maxBatchBytes ∨ batch.length = 1

structure Sound (size : Frame → Nat) (s : Pump Frame) : Prop where
  arrived : s.emitted = s.taken ++ s.frames
  conserved : (s.ended ++ s.inHand).Perm s.taken
  ordered : (s.posted.flatten ++ s.inHand).Sublist s.taken
  held : s.held = s.inHand.length
  bytes : s.batcher ≠ .through → s.bytes = Table.weight size s.batch
  fits : ∀ batch ∈ s.posted ++ s.failed ++ s.lost ++ s.flight.toList ++ s.posts,
    batch ≠ [] ∧ Fits size batch
  growing : s.batch = [] ∨ Fits size s.batch
  closing : s.batcher = .closing → s.batch ≠ []
  failed : s.countFailed = s.failed.flatten.length
  backpressure : s.countBackpressure = s.lost.flatten.length
  dropped : s.dropped = s.lost.length
  abandoned : s.countAbandoned = if s.gone then (s.inHand ++ s.frames).length else 0

theorem sound_start (size : Frame → Nat) : (start : Pump Frame).Sound size where
  arrived := rfl
  conserved := List.Perm.refl _
  ordered := List.Sublist.refl _
  held := rfl
  bytes _ := rfl
  fits _ member := absurd member List.not_mem_nil
  growing := .inl rfl
  closing closing := nomatch closing
  failed := rfl
  backpressure := rfl
  dropped := rfl
  abandoned := rfl

theorem full_popped (s : Pump Frame) (rest taken : List Frame) :
    { s with frames := rest, taken := taken }.full =
      { s.full with frames := rest, taken := taken } := by
  unfold full hasRoom
  simp only
  split <;> rfl

def sent (s : Pump Frame) (bytes : Nat) (batcher : Batcher) : Pump Frame :=
  { s with posts := s.posts ++ [s.batch], batch := [], bytes := bytes, batcher := batcher }

@[simp]
theorem inHand_sent (s : Pump Frame) (bytes : Nat) (batcher : Batcher) :
    (s.sent bytes batcher).inHand = s.inHand := by
  simp [inHand, sent]

theorem offer_cases (s : Pump Frame) : s.offer = s.sent 0 s.batcher ∨ s.offer = s := by
  unfold offer
  by_cases room : s.hasRoom = true
  · rw [if_pos room]
    exact .inl rfl
  · rw [if_neg room]
    exact .inr rfl

theorem full_cases (s : Pump Frame) : s.full = s.sent 0 s.batcher ∨
    s.full = { s with batch := [], bytes := 0 }.countDrop s.batch := by
  unfold full
  by_cases room : s.hasRoom = true
  · rw [if_pos room]
    exact .inl rfl
  · rw [if_neg room]
    exact .inr rfl

namespace Sound

variable {size : Frame → Nat} {s : Pump Frame} (sound : s.Sound size)

include sound

theorem sent (some_frame : s.batch ≠ []) {bytes : Nat} {batcher : Batcher}
    (empty : batcher ≠ .through → bytes = 0) (left : batcher ≠ .closing) :
    (s.sent bytes batcher).Sound size := by
  refine ⟨sound.arrived, ?_, ?_, ?_, empty, ?_, .inl rfl, fun closing => absurd closing left,
    sound.failed, sound.backpressure, sound.dropped, ?_⟩
  · rw [inHand_sent]
    exact sound.conserved
  · rw [inHand_sent]
    exact sound.ordered
  · rw [inHand_sent]
    exact sound.held
  · intro batch member
    simp only [Pump.sent] at member
    rw [← List.append_assoc, List.mem_append, List.mem_singleton] at member
    rcases member with old | rfl
    · exact sound.fits batch old
    · exact ⟨some_frame, sound.growing.resolve_left some_frame⟩
  · rw [inHand_sent]
    exact sound.abandoned

theorem offer (some_frame : s.batch ≠ []) (taking : s.batcher = .taking) :
    s.offer.Sound size := by
  rcases s.offer_cases with handed | kept
  · rw [handed]
    exact sound.sent some_frame (fun _ => rfl) (by rw [taking]; nofun)
  · rw [kept]
    exact sound

/-- A batch every slot refused goes from the hand to the lost. -/
theorem countDrop (some_frame : s.batch ≠ []) (taking : s.batcher = .taking)
    (there : s.gone = false) :
    ({ s with batch := [], bytes := 0 }.countDrop s.batch).Sound size := by
  have hand : s.inHand = (s.flight.getD [] ++ s.posts.flatten) ++ s.batch := rfl
  refine ⟨sound.arrived, ?_, ?_, ?_, fun _ => rfl, ?_, .inl rfl, ?_, sound.failed, ?_, ?_, ?_⟩
  · have conserved := sound.conserved
    rw [hand] at conserved
    simp only [ended, inHand, Pump.countDrop, List.flatten_append, List.flatten_singleton,
      List.append_nil] at conserved ⊢
    refine List.Perm.trans ?_ conserved
    rw [← List.append_assoc _ s.lost.flatten, List.append_assoc _ s.batch]
    exact List.Perm.append_left _ (List.perm_append_comm)
  · refine List.Sublist.trans ?_ sound.ordered
    simp only [inHand, Pump.countDrop, List.append_nil]
    exact (List.sublist_append_left _ _).append_left _
  · have held := sound.held
    simp only [inHand, Pump.countDrop, List.length_append, List.length_nil] at held ⊢
    omega
  · intro batch member
    simp only [Pump.countDrop, List.mem_append, List.mem_singleton] at member
    have known := sound.fits batch
    simp only [List.mem_append] at known
    rcases member with (((posted | failed) | lost | rfl) | flight) | posts
    · exact known (.inl (.inl (.inl (.inl posted))))
    · exact known (.inl (.inl (.inl (.inr failed))))
    · exact known (.inl (.inl (.inr lost)))
    · exact ⟨some_frame, sound.growing.resolve_left some_frame⟩
    · exact known (.inl (.inr flight))
    · exact known (.inr posts)
  · intro closing
    have was_closing : s.batcher = .closing := closing
    rw [taking] at was_closing
    contradiction
  · simp only [Pump.countDrop, List.flatten_append, List.flatten_singleton, List.length_append]
    rw [sound.backpressure]
  · simp only [Pump.countDrop, List.length_append, List.length_singleton]
    rw [sound.dropped]
  · have none_yet := sound.abandoned
    rw [there, if_neg nofun] at none_yet
    simp only [Pump.countDrop, there, Bool.false_eq_true, if_false]
    exact none_yet

theorem full (some_frame : s.batch ≠ []) (taking : s.batcher = .taking) (there : s.gone = false) :
    s.full.Sound size := by
  rcases s.full_cases with handed | dropped
  · rw [handed]
    exact sound.sent some_frame (fun _ => rfl) (by rw [taking]; nofun)
  · rw [dropped]
    exact sound.countDrop some_frame taking there

theorem popped (isAnswer : Frame → Bool) {frame : Frame} {rest : List Frame}
    (first : s.frames = frame :: rest) (taking : s.batcher = .taking) (there : s.gone = false)
    (fits : s.batch = [] ∨ s.bytes + size frame ≤ maxBatchBytes) :
    ({ s with frames := rest, taken := s.taken ++ [frame] }.push size isAnswer frame).Sound
      size := by
  have hand : (s.flight.getD [] ++ s.posts.flatten ++ (s.batch ++ [frame])) =
      s.inHand ++ [frame] := (List.append_assoc _ _ _).symm
  have counted : s.bytes = Table.weight size s.batch := sound.bytes (by rw [taking]; nofun)
  refine ⟨?_, ?_, ?_, ?_, ?_, sound.fits, ?_, ?_, sound.failed, sound.backpressure,
    sound.dropped, ?_⟩
  · simp only [push, List.append_assoc, List.singleton_append]
    rw [← first]
    exact sound.arrived
  · simp only [ended, inHand, push]
    rw [hand, ← List.append_assoc]
    exact sound.conserved.append_right _
  · simp only [inHand, push]
    rw [hand, ← List.append_assoc]
    exact sound.ordered.append_right _
  · simp only [inHand, push]
    rw [hand, List.length_append, List.length_singleton, sound.held]
  · intro _
    simp only [push, Table.weight_append, Table.weight_singleton]
    rw [counted]
  · refine .inr ?_
    simp only [push]
    rcases fits with empty | within
    · refine .inr ?_
      rw [empty]
      rfl
    · refine .inl ?_
      rw [Table.weight_append, Table.weight_singleton, ← counted]
      exact within
  · intro closing
    simp only [push, taking] at closing
    contradiction
  · have none_yet := sound.abandoned
    rw [there, if_neg nofun] at none_yet
    simp only [push, there, Bool.false_eq_true, if_false]
    exact none_yet

theorem receive (isAnswer : Frame → Bool) {frame : Frame} {rest : List Frame}
    (first : s.frames = frame :: rest) (taking : s.batcher = .taking) (there : s.gone = false) :
    ({ s with frames := rest, taken := s.taken ++ [frame] }.receive size isAnswer frame).Sound
      size := by
  have joined : ∀ before : Pump Frame, before.Sound size → before.frames = frame :: rest →
      before.batcher = .taking → before.gone = false →
      (before.batch = [] ∨ before.bytes + size frame ≤ maxBatchBytes) →
      ∀ now : Bool, (if now then ({ before with
        frames := rest
        taken := before.taken ++ [frame] }.push size isAnswer frame).offer else { before with
          frames := rest
          taken := before.taken ++ [frame] }.push size isAnswer frame).Sound size := by
    intro before held first taking there fits now
    have pushed := held.popped isAnswer first taking there fits
    cases now with
    | false => exact pushed
    | true => exact pushed.offer (by simp [push]) taking
  unfold Pump.receive
  simp only
  by_cases full : (!s.batch.isEmpty && decide (maxBatchBytes < s.bytes + size frame)) = true
  · rw [if_pos full, full_popped]
    rw [Bool.and_eq_true, Bool.not_eq_true', List.isEmpty_eq_false_iff] at full
    have emptied : s.full.batch = [] := by
      rcases s.full_cases with handed | dropped
      · rw [handed]
        rfl
      · rw [dropped]
        rfl
    have kept : s.full.frames = s.frames ∧ s.full.taken = s.taken ∧ s.full.batcher = s.batcher ∧
        s.full.gone = s.gone := by
      rcases s.full_cases with handed | dropped
      · rw [handed]
        exact ⟨rfl, rfl, rfl, rfl⟩
      · rw [dropped]
        exact ⟨rfl, rfl, rfl, rfl⟩
    have after := joined s.full (sound.full full.1 taking there) (kept.1.trans first)
      (kept.2.2.1.trans taking) (kept.2.2.2.trans there) (.inl emptied)
    rw [kept.2.1] at after
    exact after _
  · rw [if_neg full]
    refine joined s sound first taking there ?_ _
    by_cases empty : s.batch = []
    · exact .inl empty
    · refine .inr ?_
      rw [Bool.and_eq_true, Bool.not_eq_true', List.isEmpty_eq_false_iff, decide_eq_true_eq,
        not_and] at full
      exact Nat.not_lt.mp (full empty)

theorem take (isAnswer : Frame → Bool) (there : s.gone = false) :
    (s.take size isAnswer).Sound size := by
  unfold Pump.take
  split
  · rename_i frame rest taking first
    exact sound.receive isAnswer first taking there
  · rename_i taking none_left
    by_cases closed : s.closed = true
    · rw [if_pos closed]
      refine ⟨sound.arrived, sound.conserved, sound.ordered, sound.held, ?_, sound.fits,
        sound.growing, ?_, sound.failed, sound.backpressure, sound.dropped, sound.abandoned⟩
      · intro _
        exact sound.bytes (by rw [taking]; nofun)
      · intro closing
        by_cases empty : s.batch.isEmpty = true
        · simp [empty] at closing
        · rwa [List.isEmpty_iff] at empty
    · rw [if_neg closed]
      exact sound
  · exact sound

theorem tick : s.tick.Sound size := by
  unfold Pump.tick
  by_cases due : s.batcher = .taking ∧ s.frames = [] ∧ s.closed = false ∧ s.batch ≠ []
  · rw [if_pos due]
    exact sound.offer due.2.2.2 due.1
  · rw [if_neg due]
    exact sound

theorem room : s.room.Sound size := by
  unfold Pump.room
  by_cases due : s.batcher = .closing ∧ s.hasRoom = true
  · rw [if_pos due]
    exact sound.sent (sound.closing due.1) (fun other => absurd rfl other) nofun
  · rw [if_neg due]
    exact sound

theorem next : s.next.Sound size := by
  unfold Pump.next
  split
  · rename_i batch rest idle queued
    have hand : batch ++ rest.flatten ++ s.batch = s.inHand := by
      rw [inHand, idle, queued]
      simp
    refine ⟨sound.arrived, ?_, ?_, ?_, sound.bytes, ?_, sound.growing, sound.closing,
      sound.failed, sound.backpressure, sound.dropped, ?_⟩
    · simp only [inHand, Option.getD_some]
      rw [hand]
      exact sound.conserved
    · simp only [inHand, Option.getD_some]
      rw [hand]
      exact sound.ordered
    · simp only [inHand, Option.getD_some]
      rw [hand]
      exact sound.held
    · have known := sound.fits
      rw [idle, queued] at known
      simp only [Option.toList_none, List.append_nil] at known
      simp only [Option.toList_some, List.append_assoc, List.singleton_append]
      simpa only [List.append_assoc] using known
    · simp only [inHand, Option.getD_some]
      rw [hand]
      exact sound.abandoned
  · exact sound

theorem answered (delivered : Bool) (there : s.gone = false) :
    (s.answered delivered).Sound size := by
  unfold Pump.answered
  cases flight : s.flight with
  | none => exact sound
  | some batch =>
      have hand : s.inHand = batch ++ (s.posts.flatten ++ s.batch) := by
        rw [inHand, flight, Option.getD_some, List.append_assoc]
      have held : s.held - batch.length = (s.posts.flatten ++ s.batch).length := by
        rw [sound.held, hand, List.length_append, Nat.add_sub_cancel_left]
      have conserved := sound.conserved
      have ordered := sound.ordered
      have known := sound.fits
      have none_yet := sound.abandoned
      rw [there, if_neg nofun] at none_yet
      rw [hand] at conserved ordered
      rw [flight, Option.toList_some] at known
      cases delivered with
      | true =>
          refine ⟨sound.arrived, ?_, ?_, held, sound.bytes, ?_, sound.growing, sound.closing,
            sound.failed, sound.backpressure, sound.dropped, ?_⟩
          · simp only [ended, inHand, if_true, Option.getD_none, List.nil_append,
              List.flatten_append, List.flatten_singleton, List.append_assoc] at conserved ⊢
            refine List.Perm.trans (List.Perm.append_left _ ?_) conserved
            exact (List.perm_append_comm_assoc batch s.failed.flatten _).trans
              ((List.perm_append_comm_assoc batch s.lost.flatten _).append_left _)
          · simp only [inHand, if_true, Option.getD_none, List.nil_append, List.flatten_append,
              List.flatten_singleton, List.append_assoc] at ordered ⊢
            exact ordered
          · intro other member
            refine known other ?_
            simp only [if_true, Option.toList_none, List.mem_append, List.mem_singleton,
              List.not_mem_nil, or_false] at member ⊢
            tauto
          · simp only [if_true, there, Bool.false_eq_true, if_false]
            exact none_yet
      | false =>
          refine ⟨sound.arrived, ?_, ?_, held, sound.bytes, ?_, sound.growing, sound.closing,
            ?_, sound.backpressure, sound.dropped, ?_⟩
          · simp only [ended, inHand, Bool.false_eq_true, if_false, Option.getD_none,
              List.nil_append, List.flatten_append, List.flatten_singleton, List.append_assoc]
              at conserved ⊢
            refine List.Perm.trans (List.Perm.append_left _ (List.Perm.append_left _ ?_)) conserved
            exact List.perm_append_comm_assoc batch s.lost.flatten _
          · refine List.Sublist.trans ?_ ordered
            simp only [inHand, Bool.false_eq_true, if_false, Option.getD_none, List.nil_append]
            exact (List.sublist_append_right _ _).append_left _
          · intro other member
            refine known other ?_
            simp only [Bool.false_eq_true, if_false, Option.toList_none, List.mem_append,
              List.mem_singleton, List.not_mem_nil, or_false] at member ⊢
            tauto
          · simp only [Bool.false_eq_true, if_false, List.flatten_append, List.flatten_singleton,
              List.length_append]
            rw [sound.failed]
          · simp only [there, Bool.false_eq_true, if_false]
            exact none_yet

theorem step (isAnswer : Frame → Bool) (event : PumpEvent Frame) :
    (s.step size isAnswer event).Sound size := by
  unfold Pump.step
  by_cases gone : s.gone = true
  · rw [if_pos gone]
    exact sound
  · rw [if_neg gone]
    have there : s.gone = false := Bool.eq_false_iff.mpr gone
    have none_yet := sound.abandoned
    rw [there, if_neg nofun] at none_yet
    cases event with
    | emit frame =>
        simp only
        by_cases closed : s.closed = true
        · rw [if_pos closed]
          exact sound
        · rw [if_neg closed]
          refine ⟨?_, sound.conserved, sound.ordered, sound.held, sound.bytes, sound.fits,
            sound.growing, sound.closing, sound.failed, sound.backpressure, sound.dropped, ?_⟩
          · simp only
            rw [sound.arrived, List.append_assoc]
          · simp only [there, Bool.false_eq_true, if_false]
            exact none_yet
    | finish =>
        exact ⟨sound.arrived, sound.conserved, sound.ordered, sound.held, sound.bytes, sound.fits,
          sound.growing, sound.closing, sound.failed, sound.backpressure, sound.dropped,
          sound.abandoned⟩
    | take => exact sound.take isAnswer there
    | tick => exact sound.tick
    | room => exact sound.room
    | next => exact sound.next
    | answered delivered => exact sound.answered delivered there
    | drop =>
        refine ⟨sound.arrived, sound.conserved, sound.ordered, sound.held, sound.bytes, sound.fits,
          sound.growing, sound.closing, sound.failed, sound.backpressure, sound.dropped, ?_⟩
        simp only [Pump.drop, if_true, inHand, List.length_append]
        rw [sound.held, inHand, List.length_append, List.length_append]

end Sound

/-- What holds in every state of a run.  Frames still waiting when the pump is
dropped are the abandoned ones. -/
structure Conserves (size : Frame → Nat) (s : Pump Frame) : Prop where
  /-- Every frame that came is once among the posted, the failed, the dropped
  and those not yet at their end. -/
  once : (s.ended ++ (s.inHand ++ s.frames)).Perm s.emitted
  ordered : (s.posted.flatten ++ (s.inHand ++ s.frames)).Sublist s.emitted
  batches : ∀ batch ∈ s.posted ++ s.failed ++ s.lost ++ s.flight.toList ++ s.posts, Fits size batch
  held : s.held + s.ended.length = s.taken.length
  /-- What each family was told is what ended that way. -/
  counted : s.countFailed = s.failed.flatten.length ∧
    s.countBackpressure = s.lost.flatten.length ∧ s.dropped = s.lost.length
  abandoned : s.countAbandoned = if s.gone then (s.inHand ++ s.frames).length else 0

theorem Sound.conserves {size : Frame → Nat} {s : Pump Frame} (sound : s.Sound size) :
    s.Conserves size where
  once := by
    rw [sound.arrived, ← List.append_assoc]
    exact sound.conserved.append_right _
  ordered := by
    rw [sound.arrived, ← List.append_assoc]
    exact sound.ordered.append_right _
  batches batch member := (sound.fits batch member).2
  held := by
    have length := sound.conserved.length_eq
    rw [List.length_append, ← sound.held] at length
    omega
  counted := ⟨sound.failed, sound.backpressure, sound.dropped⟩
  abandoned := sound.abandoned

end Pump

/-- Over every run of frames, ticks, posts that land or fail, and the drop; what
comes after the drop changes nothing. -/
theorem pump_conserves {Frame : Type} (size : Frame → Nat) (isAnswer : Frame → Bool)
    (events : List (PumpEvent Frame)) :
    (Run.final (Pump.step size isAnswer) Pump.start events).Conserves size := by
  have sound := Run.invariant_of_step (Pump.Sound size)
    (fun _ event held => Pump.Sound.step held isAnswer event) (Pump.sound_start size) events _
    (Run.final_mem_states (Pump.step size isAnswer) Pump.start events)
  exact sound.conserves

end Agentsfleet.Supervisor
