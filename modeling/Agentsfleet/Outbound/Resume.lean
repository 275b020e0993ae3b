import Agentsfleet.Library.Run
import Agentsfleet.Library.SortedMap
import Mathlib.Data.List.TakeWhile

/-!
# The outbound worker's resume

A restarted worker first walks the entries its consumer was handed and never
acknowledged, then reads new ones.  The server holds the pending entries by id;
what meets each turn of the loop (a cancellation, a failed read, what the lanes
acknowledged meanwhile) is part of the turn.
-/

set_option autoImplicit false

namespace Agentsfleet.Outbound

open Agentsfleet.Library

/-! ## Entries -/

/-- A stream entry's fields; a value is `none` where its bytes are no text. -/
abbrev Fields := List (String × Option String)

def fieldProvider : String := "provider"
def fieldWorkspaceId : String := "workspace_id"
def fieldFleetId : String := "fleet_id"
def fieldEventId : String := "event_id"
def fieldAnswer : String := "answer"
def fieldDestination : String := "destination"

variable {Id : Type}

structure OutboundDelivery (Id : Type) where
  id : Id
  provider : String
  destination : String
  workspaceId : String
  fleetId : String
  eventId : String
  answer : String
deriving DecidableEq

def Fields.get (fields : Fields) (name : String) : Option String :=
  (fields.lookup name).bind id

def decode (id : Id) (fields : Fields) : Option (OutboundDelivery Id) := do
  let provider ← fields.get fieldProvider
  let destination ← fields.get fieldDestination
  let workspaceId ← fields.get fieldWorkspaceId
  let fleetId ← fields.get fieldFleetId
  let eventId ← fields.get fieldEventId
  let answer ← fields.get fieldAnswer
  pure ⟨id, provider, destination, workspaceId, fleetId, eventId, answer⟩

def decodable (entry : Id × Fields) : Bool := (decode entry.1 entry.2).isSome

def owed (entries : List (Id × Fields)) : List (OutboundDelivery Id) :=
  entries.filterMap fun entry => decode entry.1 entry.2

theorem decode_id {id : Id} {fields : Fields} {job : OutboundDelivery Id}
    (decoded : decode id fields = some job) : job.id = id := by
  simp only [decode, bind, Option.bind_eq_some_iff, pure, Option.some.injEq] at decoded
  obtain ⟨_, _, _, _, _, _, _, _, _, _, _, _, rfl⟩ := decoded
  rfl

theorem owed_concat {done : List (Id × Fields)} {id : Id} {fields : Fields}
    {job : OutboundDelivery Id} (decoded : decode id fields = some job) :
    owed (done ++ [(id, fields)]) = owed done ++ [job] := by
  simp [owed, decoded]

theorem head_dropWhile (entries : List (Id × Fields)) :
    ∀ entry ∈ (entries.dropWhile decodable).head?, decodable entry = false := by
  intro entry first
  have refused := List.head?_dropWhile_not decodable entries
  rw [Option.mem_def.mp first] at refused
  simpa using refused

/-- Stopping at the first undecodable entry loses nothing exactly when no
decodable one comes after it. -/
theorem owed_takeWhile_iff (entries : List (Id × Fields)) :
    owed (entries.takeWhile decodable) = owed entries ↔
      entries.Pairwise fun earlier later =>
        decodable later = true → decodable earlier = true := by
  induction entries with
  | nil => simp
  | cons entry rest ih =>
      cases head : decodable entry with
      | true =>
          obtain ⟨job, decoded⟩ := Option.isSome_iff_exists.mp head
          simp only [List.takeWhile_cons, head, if_true, owed, List.filterMap_cons, decoded,
            List.cons.injEq, true_and, List.pairwise_cons, implies_true]
          exact ih
      | false =>
          have undecoded : decode entry.1 entry.2 = none := by simpa [decodable] using head
          simp only [List.takeWhile_cons, head, Bool.false_eq_true, if_false, owed,
            List.filterMap_cons, undecoded, List.filterMap_nil, List.pairwise_cons, imp_false]
          constructor
          · intro none_owed
            have undecodable : ∀ later ∈ rest, ¬ decodable later = true := by
              intro later member decodes
              have absent := List.filterMap_eq_nil_iff.mp none_owed.symm later member
              simp [decodable, absent] at decodes
            refine ⟨undecodable, List.pairwise_of_forall_mem_list ?_⟩
            intro earlier _ later member decodes
            exact absurd decodes (undecodable later member)
          · rintro ⟨undecodable, _⟩
            symm
            rw [List.filterMap_eq_nil_iff]
            intro later member
            simpa [decodable] using undecodable later member

/-! ## The worker -/

inductive Reply (α : Type) where
  | cancelled
  | failed
  | answered (value : α)

/-- What meets one turn of the loop: the entries the lanes acknowledged before
it, whether the token stops it at its first look, how its reads end, whether an
undecodable entry's acknowledgement went through, and whether the token let the
hand-off and the pause after a failure finish. -/
structure Meeting (Id : Type) where
  acknowledged : List Id
  cancelled : Bool
  pendingRead : Reply Unit
  freshRead : Reply (Option (Id × Fields))
  dropped : Bool
  handedOff : Bool
  paused : Bool

structure Answers (meeting : Meeting Id) : Prop where
  uncancelled : meeting.cancelled = false
  answered : meeting.pendingRead = .answered ()

def calm : Meeting Id :=
  { acknowledged := []
    cancelled := false
    pendingRead := .answered ()
    freshRead := .answered none
    dropped := true
    handedOff := true
    paused := true }

theorem calm_answers : Answers (calm : Meeting Id) := ⟨rfl, rfl⟩

section Worker

variable [LinearOrder Id]

/-- The worker with its consumer's pending entries, its resume cursor (`none` is
the read id `0`), and the jobs it handed to the lanes, split by the phase that
read them. -/
structure Worker (Id : Type) [LinearOrder Id] where
  pending : SortedMap Id Fields
  cursor : Option Id
  resuming : Bool
  running : Bool
  resumed : List (OutboundDelivery Id)
  fresh : List (OutboundDelivery Id)

def Worker.start (pending : SortedMap Id Fields) : Worker Id :=
  ⟨pending, none, true, true, [], []⟩

namespace Worker

def beyond (w : Worker Id) (id : Id) : Bool :=
  match w.cursor with
  | none => true
  | some cursor => decide (cursor < id)

/-- What the server answers a pending read from the cursor, one entry at most. -/
def nextPending (w : Worker Id) : Option (Id × Fields) :=
  w.pending.entries.find? fun entry => w.beyond entry.1

def acknowledge (w : Worker Id) (ids : List Id) : Worker Id :=
  let held := (w.resumed ++ w.fresh).map OutboundDelivery.id
  { w with pending := w.pending.retain fun id => !(ids.contains id && held.contains id) }

/-- `OutboundReader::drop_undeliverable`. -/
def dropUndeliverable (w : Worker Id) (id : Id) (dropped : Bool) : Worker Id :=
  if dropped then { w with pending := w.pending.remove id } else w

/-- `OutboundReader::read_pending`. -/
def readPending (w : Worker Id) (dropped : Bool) : Option (OutboundDelivery Id) × Worker Id :=
  match w.nextPending with
  | none => (none, w)
  | some (id, fields) =>
      match decode id fields with
      | none => (none, w.dropUndeliverable id dropped)
      | some job => (some job, { w with cursor := some id })

/-- `OutboundReader::read_blocking`, once the server has assigned an entry. -/
def readBlocking (w : Worker Id) (entry : Option (Id × Fields)) (dropped : Bool) :
    Option (OutboundDelivery Id) × Worker Id :=
  match entry with
  | none => (none, w)
  | some (id, fields) =>
      let w := { w with pending := w.pending.insert id fields }
      match decode id fields with
      | none => (none, w.dropUndeliverable id dropped)
      | some job => (some job, w)

def stop (w : Worker Id) : Worker Id := { w with running := false }

/-- What a failed read costs: a pause, unless the token ends the loop. -/
def pause (w : Worker Id) (paused : Bool) : Worker Id := if paused then w else w.stop

/-- `Worker::read_new` and the loop's arm for what it found. -/
def readNew (w : Worker Id) (meeting : Meeting Id) : Worker Id :=
  match meeting.freshRead with
  | .cancelled => w.stop
  | .failed => w.pause meeting.paused
  | .answered entry =>
      match w.readBlocking entry meeting.dropped with
      | (none, w) => w
      | (some job, w) =>
          if meeting.handedOff then { w with fresh := w.fresh ++ [job] } else w.stop

/-- One turn of `Worker::run`: `next`, and the arm for what it found. -/
def turn (w : Worker Id) (meeting : Meeting Id) : Worker Id :=
  if !w.running then w
  else
    let w := w.acknowledge meeting.acknowledged
    if meeting.cancelled then w.stop
    else if w.resuming then
      match meeting.pendingRead with
      | .cancelled => w.stop
      | .failed => w.pause meeting.paused
      | .answered () =>
          match w.readPending meeting.dropped with
          | (some job, w) =>
              if meeting.handedOff then { w with resumed := w.resumed ++ [job] } else w.stop
          | (none, w) => { w with resuming := false }.readNew meeting
    else w.readNew meeting

end Worker

/-! ## What a resume owes -/

/-- Whatever meets the worker, once the resuming phase has ended every decodable
entry that was pending at the start has been handed over, once and in order. -/
def HandsOver (pending : SortedMap Id Fields) : Prop :=
  ∀ meetings, ∀ w ∈ Run.states Worker.turn (Worker.start pending) meetings,
    w.resuming = false → w.resumed = owed pending.entries

def PassesOver (pending : SortedMap Id Fields) : Prop :=
  ∀ meetings, ∀ w ∈ Run.states Worker.turn (Worker.start pending) meetings,
    w.running = true → w.resuming = true →
      ∀ entry, w.nextPending = some entry → decodable entry = false →
        ∀ meeting, (w.turn meeting).resuming = true

def AllDecodable (pending : SortedMap Id Fields) : Prop :=
  ∀ entry ∈ pending.entries, decodable entry = true

def DecodableFirst (pending : SortedMap Id Fields) : Prop :=
  pending.entries.Pairwise fun earlier later => decodable later = true → decodable earlier = true

/-! ## The walk -/

/-- Where a running worker stands in its resume: past `done`, before `rest`. -/
structure Walk (pending : SortedMap Id Fields) (w : Worker Id)
    (done rest : List (Id × Fields)) : Prop where
  running : w.running = true
  resuming : w.resuming = true
  split : pending.entries = done ++ rest
  decodable : ∀ entry ∈ done, decodable entry = true
  resumed : w.resumed = owed done
  cursor : w.cursor = done.getLast?.map Prod.fst
  held : ∃ kept, w.pending.entries = kept ++ rest ∧ ∀ entry ∈ kept, w.beyond entry.1 = false
  fresh : w.fresh = []

variable {pending : SortedMap Id Fields} {w : Worker Id} {done rest : List (Id × Fields)}

variable (pending) in
theorem start_walk : Walk pending (Worker.start pending) [] pending.entries where
  running := rfl
  resuming := rfl
  split := rfl
  decodable := by simp
  resumed := rfl
  cursor := rfl
  held := ⟨[], rfl, by simp⟩
  fresh := rfl

theorem Walk.ascending (walk : Walk pending w done rest) :
    ∀ earlier ∈ done, ∀ later ∈ rest, earlier.1 < later.1 := by
  have sorted := pending.ascending
  rw [walk.split, List.pairwise_append] at sorted
  exact sorted.2.2

theorem Walk.beyond (walk : Walk pending w done rest) :
    ∀ entry ∈ rest, w.beyond entry.1 = true := by
  intro entry member
  rcases List.eq_nil_or_concat done with empty | ⟨front, last, ends⟩
  · simp [Worker.beyond, walk.cursor, empty]
  · have later := walk.ascending last (by simp [ends]) entry member
    simp [Worker.beyond, walk.cursor, ends, later]

theorem Walk.nextPending (walk : Walk pending w done rest) : w.nextPending = rest.head? := by
  obtain ⟨kept, entries, behind⟩ := walk.held
  have passed : kept.find? (fun entry => w.beyond entry.1) = none := by
    rw [List.find?_eq_none]
    intro entry member
    simp [behind entry member]
  rw [Worker.nextPending, entries, List.find?_append, passed, Option.none_or]
  cases rest with
  | nil => rfl
  | cons entry tail => simp [walk.beyond entry (by simp)]

theorem Walk.acknowledge (walk : Walk pending w done rest) (ids : List Id) :
    Walk pending (w.acknowledge ids) done rest where
  running := walk.running
  resuming := walk.resuming
  split := walk.split
  decodable := walk.decodable
  resumed := walk.resumed
  cursor := walk.cursor
  held := by
    obtain ⟨kept, entries, behind⟩ := walk.held
    refine ⟨kept.filter fun entry => !(ids.contains entry.1 &&
      ((w.resumed ++ w.fresh).map OutboundDelivery.id).contains entry.1), ?_,
      fun entry member => behind entry (List.mem_of_mem_filter member)⟩
    simp only [Worker.acknowledge, SortedMap.retain, entries, List.filter_append]
    congr 1
    rw [List.filter_eq_self]
    intro entry member
    have unheld : ((w.resumed ++ w.fresh).map OutboundDelivery.id).contains entry.1 = false := by
      rw [walk.resumed, walk.fresh, List.append_nil]
      simp only [List.contains_eq_mem, decide_eq_false_iff_not, List.mem_map, not_exists, not_and]
      intro job owes same
      obtain ⟨⟨id, fields⟩, walked, decoded⟩ := List.mem_filterMap.mp owes
      have before := walk.ascending (id, fields) walked entry member
      rw [← same, decode_id decoded] at before
      exact lt_irrefl _ before
    rw [unheld, Bool.and_false, Bool.not_false]
  fresh := walk.fresh

/-! ## One turn -/

@[simp] theorem Worker.stop_resuming (w : Worker Id) : w.stop.resuming = w.resuming := rfl
@[simp] theorem Worker.stop_resumed (w : Worker Id) : w.stop.resumed = w.resumed := rfl

theorem Worker.dropUndeliverable_resumed (w : Worker Id) (id : Id) (dropped : Bool) :
    (w.dropUndeliverable id dropped).resuming = w.resuming ∧
      (w.dropUndeliverable id dropped).resumed = w.resumed := by
  cases dropped <;> exact ⟨rfl, rfl⟩

theorem Worker.readBlocking_resumed (w : Worker Id) (entry : Option (Id × Fields))
    (dropped : Bool) :
    (w.readBlocking entry dropped).2.resuming = w.resuming ∧
      (w.readBlocking entry dropped).2.resumed = w.resumed := by
  cases entry with
  | none => exact ⟨rfl, rfl⟩
  | some entry =>
      obtain ⟨id, fields⟩ := entry
      simp only [readBlocking]
      cases decode id fields with
      | none => exact dropUndeliverable_resumed _ id dropped
      | some job => exact ⟨rfl, rfl⟩

theorem Worker.readNew_resumed (w : Worker Id) (meeting : Meeting Id) :
    (w.readNew meeting).resuming = w.resuming ∧ (w.readNew meeting).resumed = w.resumed := by
  unfold readNew
  cases meeting.freshRead with
  | cancelled => exact ⟨rfl, rfl⟩
  | failed => cases paused : meeting.paused <;> simp [pause]
  | answered entry =>
      have kept := w.readBlocking_resumed entry meeting.dropped
      simp only
      rcases read : w.readBlocking entry meeting.dropped with ⟨job, next⟩
      rw [read] at kept
      cases job with
      | none => exact kept
      | some job => cases handed : meeting.handedOff <;> simpa using kept

/-- An answered resume read of a decodable entry hands it over, unless the token
cuts the hand-off off. -/
theorem Walk.take {entry : Id × Fields} (walk : Walk pending w done (entry :: rest))
    (decodes : Outbound.decodable entry = true) (meeting : Meeting Id)
    (answers : Answers meeting) :
    if meeting.handedOff then Walk pending (w.turn meeting) (done ++ [entry]) rest
    else (w.turn meeting).running = false ∧ (w.turn meeting).resuming = true := by
  obtain ⟨id, fields⟩ := entry
  have acked := walk.acknowledge meeting.acknowledged
  obtain ⟨job, decoded⟩ := Option.isSome_iff_exists.mp decodes
  have next := acked.nextPending
  simp only [Worker.turn, walk.running, answers.uncancelled, acked.resuming, answers.answered,
    Worker.readPending, next, List.head?_cons, decoded, Bool.not_true, Bool.false_eq_true, if_false,
    if_true]
  cases handed : meeting.handedOff with
  | false => exact ⟨rfl, rfl⟩
  | true =>
      simp only [if_true]
      obtain ⟨kept, entries, behind⟩ := acked.held
      exact
        { running := acked.running
          resuming := rfl
          split := by rw [acked.split, List.append_assoc, List.singleton_append]
          decodable := by
            intro other member
            rcases List.mem_append.mp member with earlier | last
            · exact acked.decodable other earlier
            · rw [List.mem_singleton.mp last]; exact decodes
          resumed := by rw [owed_concat decoded, ← acked.resumed]
          cursor := by simp
          held := by
            refine ⟨kept ++ [(id, fields)], by rw [entries, List.append_assoc]; rfl, ?_⟩
            intro other member
            rcases List.mem_append.mp member with earlier | last
            · have passed := behind other earlier
              have ahead := acked.beyond (id, fields) (by simp)
              unfold Worker.beyond at passed ahead ⊢
              cases cursor : (w.acknowledge meeting.acknowledged).cursor with
              | none => simp [cursor] at passed
              | some reached =>
                  simp only [cursor, decide_eq_false_iff_not, decide_eq_true_eq, not_lt]
                    at passed ahead ⊢
                  exact le_trans passed (le_of_lt ahead)
            · rw [List.mem_singleton.mp last]
              simp [Worker.beyond]
          fresh := acked.fresh }

/-- An answered resume read that finds nothing, or an undecodable entry, ends the
resuming phase. -/
theorem Walk.finish (walk : Walk pending w done rest)
    (stuck : ∀ entry ∈ rest.head?, Outbound.decodable entry = false) (meeting : Meeting Id)
    (answers : Answers meeting) :
    (w.turn meeting).resuming = false ∧ (w.turn meeting).resumed = owed done := by
  have acked := walk.acknowledge meeting.acknowledged
  have next := acked.nextPending
  simp only [Worker.turn, walk.running, answers.uncancelled, acked.resuming, answers.answered,
    Worker.readPending, next, Bool.not_true, Bool.false_eq_true, if_false, if_true]
  cases rest with
  | nil =>
      simp only [List.head?_nil]
      have kept := Worker.readNew_resumed
        { w.acknowledge meeting.acknowledged with resuming := false } meeting
      rw [kept.1, kept.2]
      exact ⟨rfl, walk.resumed⟩
  | cons entry rest =>
      obtain ⟨id, fields⟩ := entry
      have undecoded : decode id fields = none := by
        simpa [Outbound.decodable] using stuck (id, fields) rfl
      simp only [List.head?_cons, undecoded]
      have dropped := Worker.dropUndeliverable_resumed (w.acknowledge meeting.acknowledged) id
        meeting.dropped
      have kept := Worker.readNew_resumed
        { (w.acknowledge meeting.acknowledged).dropUndeliverable id meeting.dropped with
          resuming := false } meeting
      rw [kept.1, kept.2, dropped.2]
      exact ⟨rfl, walk.resumed⟩

theorem Walk.wait (walk : Walk pending w done rest) (meeting : Meeting Id)
    (unanswered : ¬ Answers meeting) :
    Walk pending (w.turn meeting) done rest ∨
      (w.turn meeting).running = false ∧ (w.turn meeting).resuming = true := by
  have acked := walk.acknowledge meeting.acknowledged
  simp only [Worker.turn, walk.running, Bool.not_true, Bool.false_eq_true, if_false]
  cases cancelled : meeting.cancelled with
  | true => exact .inr ⟨rfl, acked.resuming⟩
  | false =>
      simp only [Bool.false_eq_true, if_false, acked.resuming, if_true]
      cases read : meeting.pendingRead with
      | cancelled => exact .inr ⟨rfl, acked.resuming⟩
      | failed =>
          cases paused : meeting.paused with
          | false => exact .inr ⟨rfl, acked.resuming⟩
          | true => exact .inl acked
      | answered done => exact absurd ⟨cancelled, read⟩ unanswered

/-! ## The whole run -/

/-- Where a run stands: walking, stopped while resuming, or past its resume with
every delivery before the first undecodable entry handed over. -/
def Stage (pending : SortedMap Id Fields) (w : Worker Id) : Prop :=
  (∃ done rest, Walk pending w done rest) ∨
    (w.running = false ∧ w.resuming = true) ∨
    (w.resuming = false ∧
      w.resumed = owed (pending.entries.takeWhile Outbound.decodable))

theorem Walk.takeWhile (walk : Walk pending w done rest)
    (stuck : ∀ entry ∈ rest.head?, Outbound.decodable entry = false) :
    pending.entries.takeWhile Outbound.decodable = done := by
  rw [walk.split, List.takeWhile_append_of_pos walk.decodable]
  cases rest with
  | nil => simp
  | cons entry rest => simp [stuck entry rfl]

theorem stage_turn (w : Worker Id) (meeting : Meeting Id) (stage : Stage pending w) :
    Stage pending (w.turn meeting) := by
  rcases stage with ⟨done, rest, walk⟩ | ⟨stopped, resuming⟩ | ⟨ended, resumed⟩
  · by_cases answers : Answers meeting
    · by_cases stuck : ∀ entry ∈ rest.head?, Outbound.decodable entry = false
      · have finished := walk.finish stuck meeting answers
        exact .inr (.inr ⟨finished.1, by rw [walk.takeWhile stuck, finished.2]⟩)
      · cases rest with
        | nil => simp at stuck
        | cons entry rest =>
            have decodes : Outbound.decodable entry = true := by simpa using stuck
            have taken := walk.take decodes meeting answers
            split at taken
            · exact .inl ⟨_, _, taken⟩
            · exact .inr (.inl taken)
    · rcases walk.wait meeting answers with walk | stopped
      · exact .inl ⟨_, _, walk⟩
      · exact .inr (.inl stopped)
  · have halted : w.turn meeting = w := by simp [Worker.turn, stopped]
    rw [halted]
    exact .inr (.inl ⟨stopped, resuming⟩)
  · refine .inr (.inr ?_)
    unfold Worker.turn
    split
    · exact ⟨ended, resumed⟩
    · have acked : (w.acknowledge meeting.acknowledged).resuming = false := ended
      simp only [acked, Bool.false_eq_true, if_false]
      split
      · exact ⟨ended, resumed⟩
      · have kept := Worker.readNew_resumed (w.acknowledge meeting.acknowledged) meeting
        exact ⟨kept.1.trans ended, kept.2.trans resumed⟩

theorem stage_of_run (meetings : List (Meeting Id)) :
    ∀ w ∈ Run.states Worker.turn (Worker.start pending) meetings, Stage pending w :=
  Run.invariant_of_step _ stage_turn (.inl ⟨_, _, start_walk _⟩) meetings

theorem Walk.stroll {front back : List (Id × Fields)} (walk : Walk pending w done (front ++ back))
    (decodes : ∀ entry ∈ front, Outbound.decodable entry = true) :
    Walk pending (Run.final Worker.turn w (List.replicate front.length calm)) (done ++ front)
      back := by
  induction front generalizing w done with
  | nil => simpa [Run.final] using walk
  | cons entry front ih =>
      have taken := walk.take (decodes entry (by simp)) calm calm_answers
      rw [if_pos (show (calm : Meeting Id).handedOff = true from rfl)] at taken
      have others := ih taken fun other member => decodes other (by simp [member])
      rw [List.append_assoc, List.singleton_append] at others
      exact others

variable (pending) in
theorem stroll_start :
    Walk pending (Run.final Worker.turn (Worker.start pending)
        (List.replicate (pending.entries.takeWhile Outbound.decodable).length calm))
      (pending.entries.takeWhile Outbound.decodable)
      (pending.entries.dropWhile Outbound.decodable) := by
  have start := start_walk pending
  rw [← List.takeWhile_append_dropWhile (p := Outbound.decodable) (l := pending.entries)] at start
  have walked := start.stroll fun entry member => by
    simpa using List.mem_takeWhile_imp member
  simpa using walked

theorem handsOver_iff_takeWhile :
    HandsOver pending ↔
      owed (pending.entries.takeWhile Outbound.decodable) = owed pending.entries := by
  constructor
  · intro handsOver
    have walk := stroll_start pending
    have finished := walk.finish (head_dropWhile _) calm calm_answers
    have reached := handsOver
      (List.replicate (pending.entries.takeWhile Outbound.decodable).length calm ++ [calm])
      _ (Run.final_mem_states _ _ _)
    rw [Run.final_append] at reached
    exact finished.2.symm.trans (reached finished.1)
  · intro same meetings w member ended
    rcases stage_of_run meetings w member with ⟨done, rest, walk⟩ | ⟨_, resuming⟩ | ⟨_, resumed⟩
    · rw [walk.resuming] at ended
      contradiction
    · rw [resuming] at ended
      contradiction
    · exact resumed.trans same

theorem handsOver_iff : HandsOver pending ↔ DecodableFirst pending :=
  handsOver_iff_takeWhile.trans (owed_takeWhile_iff pending.entries)

theorem passesOver_iff : PassesOver pending ↔ AllDecodable pending := by
  constructor
  · intro passesOver
    have walk := stroll_start pending
    have stuck := head_dropWhile pending.entries
    cases ahead : pending.entries.dropWhile Outbound.decodable with
    | nil =>
        intro entry member
        exact List.dropWhile_eq_nil_iff.mp ahead entry member
    | cons entry rest =>
        have undecodable : Outbound.decodable entry = false := stuck entry (by simp [ahead])
        have next := walk.nextPending
        rw [ahead] at next
        have still := passesOver
          (List.replicate (pending.entries.takeWhile Outbound.decodable).length calm) _
          (Run.final_mem_states _ _ _) walk.running walk.resuming entry next undecodable calm
        rw [(walk.finish stuck calm calm_answers).1] at still
        contradiction
  · intro decodes meetings w member running resuming entry next undecodable
    rcases stage_of_run meetings w member with ⟨done, rest, walk⟩ | ⟨stopped, _⟩ | ⟨ended, _⟩
    · rw [walk.nextPending] at next
      have held : entry ∈ pending.entries := by
        rw [walk.split]
        exact List.mem_append_right done (List.mem_of_mem_head? next)
      rw [decodes entry held] at undecodable
      contradiction
    · rw [running] at stopped
      contradiction
    · rw [resuming] at ended
      contradiction

/-- A restarted worker hands over what it still owed, past every undecodable
entry, exactly when no undecodable entry was pending; what it hands over is
complete exactly when none stood before a decodable one. -/
theorem resume_complete_iff (pending : SortedMap Id Fields) :
    (HandsOver pending ∧ PassesOver pending ↔ AllDecodable pending) ∧
      (HandsOver pending ↔ DecodableFirst pending) := by
  refine ⟨?_, handsOver_iff⟩
  rw [handsOver_iff, passesOver_iff]
  constructor
  · exact And.right
  · intro decodes
    refine ⟨?_, decodes⟩
    exact pending.ascending.imp_of_mem fun member _ _ _ => decodes _ member

end Worker

/-! ## One foreign entry before an answer -/

def poisoned : SortedMap Nat Fields :=
  SortedMap.ofList
    [(1, [("note", some "written by hand")]),
      (2, [(fieldProvider, some "slack"), (fieldDestination, some "C0123456789"),
        (fieldWorkspaceId, some "workspace"), (fieldFleetId, some "fleet"),
        (fieldEventId, some "1700000000000-0"), (fieldAnswer, some "Aurora is healthy.")])]

/-- The first read drops the foreign entry and ends the resume; the answer behind
it is never handed over. -/
theorem foreign_entry_ends_resume : ¬ (HandsOver poisoned ∧ PassesOver poisoned) := by
  rintro ⟨handsOver, _⟩
  have ended : (Run.final Worker.turn (Worker.start poisoned) [calm]).resuming = false := by decide
  have complete := handsOver [calm] _ (Run.final_mem_states _ _ _) ended
  revert complete
  decide

end Agentsfleet.Outbound
