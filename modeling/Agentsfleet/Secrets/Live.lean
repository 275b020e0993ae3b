import Agentsfleet.Library.Run
import Agentsfleet.Secrets.Scrub

/-!
# Streamed text as live frames

One run's answer and reasoning share one sequence, each through a carry of its own.
What a pass sends of one kind is what its carry let through.
-/

set_option autoImplicit false

namespace Agentsfleet.Secrets

open Agentsfleet.Library

inductive StreamTextKind where
  | answer
  | reasoning
deriving DecidableEq

structure FleetResponseChunk where
  text : Bytes
  textKind : StreamTextKind
  firstChunkAfterMs : Option Nat
  streamStart : Bool
  streamContiguous : Bool
  streamSeq : Nat

/-- The stream's position, and the tail held of each kind. -/
structure Live where
  nextSeq : Nat
  answer : Carry
  reasoning : Carry
  privateReasoning : Bool

namespace Live

def new : Live := ⟨0, .default, .default, false⟩

def hideReasoning (live : Live) : Live := { live with privateReasoning := true }

def carry (live : Live) : StreamTextKind → Carry
  | .answer => live.answer
  | .reasoning => live.reasoning

def setCarry (live : Live) (kind : StreamTextKind) (carry : Carry) : Live :=
  match kind with
  | .answer => { live with answer := carry }
  | .reasoning => { live with reasoning := carry }

def hidden (live : Live) (kind : StreamTextKind) : Bool :=
  live.privateReasoning && kind == .reasoning

/-- Streams `text` of `kind`, `elapsed` after the run started: the frame sent, if any. -/
def text (scrub : Scrub) (live : Live) (kind : StreamTextKind) (text : String) (elapsed : Nat) :
    Option FleetResponseChunk × Live :=
  if live.hidden kind then (none, live)
  else
    let (ready, carry) := (live.carry kind).push scrub text
    let pushed := live.setCarry kind carry
    if ready.isEmpty then (none, pushed)
    else
      let first := live.nextSeq == 0
      (some
        { text := ready
          textKind := kind
          firstChunkAfterMs := if first then some elapsed else none
          streamStart := first
          streamContiguous := true
          streamSeq := live.nextSeq },
        { pushed with nextSeq := live.nextSeq + 1 })

/-- Ends a model pass: a held tail is dropped, never sent. -/
def endPass (live : Live) : Live := { live with answer := .default, reasoning := .default }

structure Streamed where
  kind : StreamTextKind
  text : String
  elapsed : Nat

def pass (scrub : Scrub) : Live → List Streamed → List FleetResponseChunk × Live
  | live, [] => ([], live)
  | live, chunk :: rest =>
      let (frame, next) := text scrub live chunk.kind chunk.text chunk.elapsed
      let (frames, last) := pass scrub next rest
      (frame.toList ++ frames, last)

def through (scrub : Scrub) (live : Live) (streamed : List Streamed) : Live :=
  (pass scrub live streamed).2.endPass

def sent (kind : StreamTextKind) (frames : List FleetResponseChunk) : Bytes :=
  (frames.filter fun frame => frame.textKind == kind).flatMap fun frame => frame.text

def chunks (kind : StreamTextKind) (streamed : List Streamed) : List String :=
  (streamed.filter fun chunk => chunk.kind == kind).map fun chunk => chunk.text

/-! ## One chunk -/

theorem setCarry_carry (live : Live) (kind other : StreamTextKind) (carry : Carry) :
    (live.setCarry kind carry).carry other = if other = kind then carry else live.carry other := by
  cases kind <;> cases other <;> rfl

/-- A chunk that is kept to itself changes nothing; another goes through its carry, and is a
frame where the carry lets some of it through. -/
theorem text_does (scrub : Scrub) (live : Live) (kind : StreamTextKind) (chunk : String)
    (elapsed : Nat) :
    live.hidden kind = true ∧ text scrub live kind chunk elapsed = (none, live) ∨
      live.hidden kind = false ∧ ∃ ready carry, (live.carry kind).push scrub chunk = (ready, carry) ∧
        (ready = [] ∧ text scrub live kind chunk elapsed = (none, live.setCarry kind carry) ∨
          ∃ frame, frame.text = ready ∧ frame.textKind = kind ∧ frame.streamSeq = live.nextSeq ∧
            text scrub live kind chunk elapsed =
              (some frame, { live.setCarry kind carry with nextSeq := live.nextSeq + 1 })) := by
  by_cases quiet : live.hidden kind = true
  · exact .inl ⟨quiet, if_pos quiet⟩
  · refine .inr ⟨Bool.eq_false_iff.mpr quiet, _, _, rfl, ?_⟩
    rw [text, if_neg quiet]
    dsimp only
    split
    · rename_i empty
      exact .inl ⟨List.isEmpty_iff.mp empty, rfl⟩
    · exact .inr ⟨_, rfl, rfl, rfl, rfl⟩

theorem text_cases (scrub : Scrub) (live : Live) (kind other : StreamTextKind) (chunk : String)
    (elapsed : Nat) (shown : live.hidden other = false) :
    (text scrub live kind chunk elapsed).2.hidden other = false ∧
      (sent other (text scrub live kind chunk elapsed).1.toList,
        (text scrub live kind chunk elapsed).2.carry other)
        = if kind = other then (live.carry other).push scrub chunk
          else ([], live.carry other) := by
  rcases text_does scrub live kind chunk elapsed with ⟨quiet, did⟩ |
    ⟨-, ready, carry, pushed, ⟨rfl, did⟩ | ⟨frame, rfl, rfl, -, did⟩⟩
  · have differ : kind ≠ other := by
      rintro rfl
      rw [shown] at quiet
      cases quiet
    rw [did, if_neg differ]
    exact ⟨shown, rfl⟩
  · have carried := setCarry_carry live kind other carry
    rw [did]
    refine ⟨by cases kind <;> exact shown, ?_⟩
    by_cases same : kind = other
    · subst same
      rw [if_pos rfl] at carried
      rw [if_pos rfl, pushed, Prod.mk.injEq]
      exact ⟨rfl, carried⟩
    · rw [if_neg (Ne.symm same)] at carried
      rw [if_neg same, Prod.mk.injEq]
      exact ⟨rfl, carried⟩
  · have carried := setCarry_carry live frame.textKind other carry
    rw [did]
    refine ⟨by cases frame.textKind <;> exact shown, ?_⟩
    by_cases same : frame.textKind = other
    · subst same
      rw [if_pos rfl] at carried
      rw [if_pos rfl, pushed, Prod.mk.injEq]
      exact ⟨by simp [sent], carried⟩
    · rw [if_neg (Ne.symm same)] at carried
      rw [if_neg same, Prod.mk.injEq]
      exact ⟨by simp [sent, same], carried⟩

theorem text_streamSeq (scrub : Scrub) (live : Live) (kind : StreamTextKind) (chunk : String)
    (elapsed : Nat) :
    (text scrub live kind chunk elapsed).1.toList.map FleetResponseChunk.streamSeq
        = List.range' live.nextSeq (text scrub live kind chunk elapsed).1.toList.length ∧
      (text scrub live kind chunk elapsed).2.nextSeq
        = live.nextSeq + (text scrub live kind chunk elapsed).1.toList.length := by
  rcases text_does scrub live kind chunk elapsed with ⟨-, did⟩ |
    ⟨-, ready, carry, -, ⟨-, did⟩ | ⟨frame, -, -, number, did⟩⟩
  · rw [did]
    exact ⟨rfl, rfl⟩
  · rw [did]
    cases kind <;> exact ⟨rfl, rfl⟩
  · rw [did]
    exact ⟨congrArg (· :: []) number, rfl⟩

/-- Whether reasoning is kept never changes, and what is kept has no frame. -/
theorem text_private (scrub : Scrub) (live : Live) (kind : StreamTextKind) (chunk : String)
    (elapsed : Nat) :
    (text scrub live kind chunk elapsed).2.privateReasoning = live.privateReasoning ∧
      ∀ frame ∈ (text scrub live kind chunk elapsed).1, live.hidden frame.textKind = false := by
  rcases text_does scrub live kind chunk elapsed with ⟨-, did⟩ |
    ⟨shown, ready, carry, -, ⟨-, did⟩ | ⟨sent, -, rfl, -, did⟩⟩
  · rw [did]
    exact ⟨rfl, fun frame member => by cases member⟩
  · rw [did]
    refine ⟨by cases kind <;> rfl, fun frame member => ?_⟩
    cases member
  · rw [did]
    refine ⟨by cases sent.textKind <;> rfl, fun frame member => ?_⟩
    cases member
    exact shown

/-! ## One pass -/

theorem sent_append (kind : StreamTextKind) (front back : List FleetResponseChunk) :
    sent kind (front ++ back) = sent kind front ++ sent kind back := by
  rw [sent, List.filter_append, List.flatMap_append, sent, sent]

theorem pass_sent (scrub : Scrub) (live : Live) (kind : StreamTextKind)
    (streamed : List Streamed) (shown : live.hidden kind = false) :
    sent kind (pass scrub live streamed).1
        = ((live.carry kind).pushAll scrub (chunks kind streamed)).1.flatten ∧
      (pass scrub live streamed).2.carry kind
        = ((live.carry kind).pushAll scrub (chunks kind streamed)).2 := by
  induction streamed generalizing live with
  | nil => exact ⟨rfl, rfl⟩
  | cons chunk rest ih =>
      obtain ⟨still, one⟩ :=
        text_cases scrub live chunk.kind kind chunk.text chunk.elapsed shown
      obtain ⟨others, last⟩ := ih _ still
      rw [pass]
      dsimp only
      rw [sent_append, others, last]
      by_cases same : chunk.kind = kind
      · have listed : chunks kind (chunk :: rest) = chunk.text :: chunks kind rest := by
          simp [chunks, same]
        rw [if_pos same, Prod.ext_iff] at one
        obtain ⟨now, next⟩ := one
        dsimp only at now next
        rw [listed, Carry.pushAll, now, next]
        exact ⟨rfl, rfl⟩
      · have listed : chunks kind (chunk :: rest) = chunks kind rest := by
          simp [chunks, same]
        rw [if_neg same, Prod.ext_iff] at one
        obtain ⟨now, next⟩ := one
        dsimp only at now next
        rw [listed, now, next]
        exact ⟨rfl, rfl⟩

/-- What a pass sends of one kind, with its held tail masked, is that kind's text masked
at once. -/
theorem pass_masking (scrub : Scrub) (live : Live) (kind : StreamTextKind)
    (streamed : List Streamed) (shown : live.hidden kind = false)
    (fresh : live.carry kind = .default) :
    sent kind (pass scrub live streamed).1
        ++ scrub.masking ((pass scrub live streamed).2.carry kind).held
      = scrub.masking (Carry.whole (chunks kind streamed)) := by
  obtain ⟨outs, last⟩ := pass_sent scrub live kind streamed shown
  have every := Carry.pushAll_masking scrub .default (chunks kind streamed) []
  simp only [List.append_nil] at every
  rw [outs, last, fresh, every]
  rfl

theorem pass_streamSeq (scrub : Scrub) (live : Live) (streamed : List Streamed) :
    (pass scrub live streamed).1.map FleetResponseChunk.streamSeq
        = List.range' live.nextSeq (pass scrub live streamed).1.length ∧
      (pass scrub live streamed).2.nextSeq
        = live.nextSeq + (pass scrub live streamed).1.length := by
  induction streamed generalizing live with
  | nil => exact ⟨rfl, rfl⟩
  | cons chunk rest ih =>
      obtain ⟨numbers, last⟩ := ih (text scrub live chunk.kind chunk.text chunk.elapsed).2
      obtain ⟨number, next⟩ := text_streamSeq scrub live chunk.kind chunk.text chunk.elapsed
      rw [pass]
      dsimp only
      rw [List.map_append, List.length_append, number, numbers, last, next, Nat.add_assoc]
      refine ⟨?_, rfl⟩
      rw [List.range'_append_1]

/-! ## Pass after pass -/

theorem pass_private (scrub : Scrub) (live : Live) (streamed : List Streamed) :
    (pass scrub live streamed).2.privateReasoning = live.privateReasoning ∧
      ∀ frame ∈ (pass scrub live streamed).1, live.hidden frame.textKind = false := by
  induction streamed generalizing live with
  | nil => exact ⟨rfl, fun _ member => absurd member List.not_mem_nil⟩
  | cons chunk rest ih =>
      obtain ⟨still, first⟩ := text_private scrub live chunk.kind chunk.text chunk.elapsed
      obtain ⟨last, others⟩ := ih (text scrub live chunk.kind chunk.text chunk.elapsed).2
      rw [pass]
      dsimp only
      refine ⟨last.trans still, fun frame member => ?_⟩
      rcases List.mem_append.mp member with here | later
      · exact first frame (Option.mem_toList.mp here)
      · have shown := others frame later
        rw [hidden, still] at shown
        exact shown

structure Between (hides : Bool) (live : Live) : Prop where
  fresh : ∀ kind, live.carry kind = .default
  hides : live.privateReasoning = hides

theorem through_between {hides : Bool} {live : Live} (scrub : Scrub) (streamed : List Streamed)
    (between : live.Between hides) : (through scrub live streamed).Between hides := by
  constructor
  · intro kind
    cases kind <;> rfl
  · exact (pass_private scrub live streamed).1.trans between.hides

/-- Whatever passes a run has streamed, the next one's shown text is masked as a whole, and
what a parent keeps to itself is in no frame. -/
theorem run_masking (scrub : Scrub) (hides : Bool) (passes : List (List Streamed)) :
    ∀ reached ∈ Run.states (through scrub) (if hides then new.hideReasoning else new) passes,
      ∀ streamed kind,
        (reached.hidden kind = (hides && kind == .reasoning)) ∧
        (reached.hidden kind = false →
          sent kind (pass scrub reached streamed).1
              ++ scrub.masking ((pass scrub reached streamed).2.carry kind).held
            = scrub.masking (Carry.whole (chunks kind streamed))) ∧
        (reached.hidden kind = true → sent kind (pass scrub reached streamed).1 = []) := by
  have began : (if hides then new.hideReasoning else new).Between hides := by
    constructor
    · intro kind
      cases hides <;> cases kind <;> rfl
    · cases hides <;> rfl
  intro reached member streamed kind
  have between := Run.invariant_of_step (Between hides)
    (fun _ streamed held => through_between scrub streamed held) began passes reached member
  refine ⟨by rw [hidden, between.hides], fun shown => ?_, fun quiet => ?_⟩
  · exact pass_masking scrub reached kind streamed shown (between.fresh kind)
  · have kept := (pass_private scrub reached streamed).2
    rw [sent, List.filter_eq_nil_iff.mpr, List.flatMap_nil]
    intro frame member same
    have shown := kept frame member
    rw [eq_of_beq same, quiet] at shown
    cases shown

end Live

end Agentsfleet.Secrets
