import Agentsfleet.Library.Run
import Agentsfleet.Providers.Replay
import Mathlib.Algebra.Group.Nat.Defs
import Mathlib.Algebra.GroupWithZero.Nat
import Mathlib.Data.List.Basic

/-!
# A provider turn

One turn, streamed to its reader chunk by chunk.  A stream the provider ends
early is opened again while nothing of it was shown; what each opening yields is
a function of its number.
-/

set_option autoImplicit false

namespace Agentsfleet.Providers.Turn

open Agentsfleet.Library

/-! ## What a stream carries -/

inductive InferenceApi where
  | chat
  | responses
  | messages
  | gemini
  | ollama
deriving DecidableEq

/-- Rig's usage, each count where the wire gave one; `reported` is its `is_reported`. -/
structure Reported where
  reported : Bool
  inputTokens : Option Nat
  cachedInputTokens : Option Nat
  cacheCreationInputTokens : Option Nat
  outputTokens : Option Nat

structure CacheCreation where
  ephemeral5mInputTokens : Nat
  ephemeral1hInputTokens : Nat

/-- The reply as the provider sent it: its `usage.cache_creation`, where that reads as one. -/
structure Raw where
  cacheCreation : Option CacheCreation

inductive FinishReason where
  | stop
  | toolCalls
  | other
deriving DecidableEq

/-- A folded reply; `message` is its head with the content it chose. -/
structure CompletionResponse (Message : Type) where
  message : Message
  finishReason : Option FinishReason
  usage : Reported
  raw : Raw

inductive ProviderErrorKind where
  /-- The transport's: whether the guard refused its endpoint, or the reply is past its cap. -/
  | http (blocked oversize : Bool)
  | truncated
  | provider
  | other
deriving DecidableEq

/-- What the provider answered beside the failure: its status and the name it gave. -/
structure ProviderResponse where
  status : Option Nat
  machineCode : Option String
deriving DecidableEq

structure ProviderError where
  kind : ProviderErrorKind
  providerResponse : Option ProviderResponse
  isRetryable : Bool
deriving DecidableEq

structure StreamedCall (Object : Type) where
  id : String
  name : String
  arguments : Object
  invalidArguments : Option String

inductive Content (Object : Type) where
  | toolCall (call : StreamedCall Object)
  | other

inductive StreamEvent (Object : Type) where
  | text (text : String)
  | reasoning (text : String)
  | start
  | arguments
  | ended (content : Content Object)

inductive Arrival (Object : Type) where
  | event (event : StreamEvent Object)
  | unknown
  /-- A failure of the stream, a cancellation or a deadline. -/
  | stopped (failure : ProviderError)

/-! ## One attempt -/

structure Opened (Object Message : Type) where
  arrivals : List (Arrival Object)
  finished : Except ProviderError (CompletionResponse Message)
  /-- The partial fold, with the usage recovered for it. -/
  partialReply : CompletionResponse Message

structure TurnResult (Message : Type) where
  response : CompletionResponse Message
  failure : Option ProviderError

structure StreamTurn (Object Message : Type) where
  opened : Opened Object Message
  arrivals : List (Arrival Object)
  failure : Option ProviderError
  ended : Bool

section

variable {Object Message : Type}

def Opened.stream (opened : Opened Object Message) : StreamTurn Object Message :=
  ⟨opened, opened.arrivals, none, false⟩

inductive Read (Object : Type) where
  | event (event : StreamEvent Object)
  | failed
  | ended

/-- `next` over what is left to arrive; what rig does not know is read past. -/
def readNext : List (Arrival Object) → List (Arrival Object) × Option ProviderError × Read Object
  | [] => ([], none, .ended)
  | .event event :: rest => (rest, none, .event event)
  | .unknown :: rest => readNext rest
  | .stopped failure :: rest => (rest, some failure, .failed)

def StreamTurn.next (s : StreamTurn Object Message) : StreamTurn Object Message × Read Object :=
  if s.ended then (s, .ended)
  else
    match readNext s.arrivals with
    | (rest, _, .event event) => ({ s with arrivals := rest }, .event event)
    | (rest, failure, .failed) =>
        ({ s with arrivals := rest, failure := failure, ended := true }, .failed)
    | (rest, _, .ended) => ({ s with arrivals := rest, ended := true }, .ended)

def stoppedBy : List (Arrival Object) → Option ProviderError
  | [] => none
  | .stopped failure :: _ => some failure
  | _ :: rest => stoppedBy rest

/-- `finish`: the stream is read to its end, then folded. -/
def StreamTurn.finish (s : StreamTurn Object Message) : TurnResult Message :=
  match if s.ended then s.failure else stoppedBy s.arrivals with
  | some failure => ⟨s.opened.partialReply, some failure⟩
  | none =>
      match s.opened.finished with
      | .ok response => ⟨response, none⟩
      | .error failure => ⟨s.opened.partialReply, some failure⟩

/-! ## Chunks -/

inductive StreamTextKind where
  | answer
  | reasoning
deriving DecidableEq

inductive Value (Object : Type) where
  | object (fields : Object)
  | string (text : String)

structure Usage where
  input : Nat
  cachedInput : Nat
  cacheWrite : Nat
  cacheWrite5m : Nat
  cacheWrite1h : Nat
  output : Nat
deriving DecidableEq

/-- How a turn ended: what is sent back next turn, and whether it was cut. -/
structure End (Message : Type) where
  replay : Message
  cut : Bool

inductive Chunk (Object Message : Type) where
  | text (kind : StreamTextKind) (text : String)
  | call (call : Call (Value Object))
  | usage (usage : Usage)
  | ended (ended : End Message)

def chunk : StreamEvent Object → Option (Chunk Object Message)
  | .text text => some (.text .answer text)
  | .reasoning text => some (.text .reasoning text)
  | .ended (.toolCall call) =>
      some (.call ⟨call.id, call.name,
        match call.invalidArguments with
        | some text => .string text
        | none => .object call.arguments⟩)
  | .start => none
  | .arguments => none
  | .ended .other => none

/-- `u64::saturating_add`; `saturating_sub` is subtraction on `Nat`. -/
def saturatingAdd (a b : Nat) : Nat := min (a + b) (2 ^ 64 - 1)

def CacheCreation.of (api : InferenceApi) (raw : Raw) : CacheCreation :=
  match api with
  | .messages => raw.cacheCreation.getD ⟨0, 0⟩
  | _ => ⟨0, 0⟩

def spent (api : InferenceApi) (reported : Reported) (raw : Raw) : Usage :=
  let cachedInput := reported.cachedInputTokens.getD 0
  let written := reported.cacheCreationInputTokens.getD 0
  let split := CacheCreation.of api raw
  let lifetimes := saturatingAdd split.ephemeral5mInputTokens split.ephemeral1hInputTokens
  { input := reported.inputTokens.getD 0 - cachedInput - written
    cachedInput := cachedInput
    cacheWrite := written - lifetimes
    cacheWrite5m := split.ephemeral5mInputTokens
    cacheWrite1h := split.ephemeral1hInputTokens
    output := reported.outputTokens.getD 0 }

/-! ## Failures -/

inductive Error where
  | blockedEndpoint (provider : String)
  | refused (status : Nat) (code : Option String) (source : ProviderError)
  | oversize (limit : Nat) (source : ProviderError)
  | lost (source : ProviderError)
  | ended (reason : String) (source : ProviderError)
  | wire (source : ProviderError)
  /-- A request that could not be built, counted or encoded. -/
  | unopened (reason : String)
deriving DecidableEq

def blocked (failure : ProviderError) : Bool :=
  match failure.kind with
  | .http blocked _ => blocked
  | _ => false

def oversize (failure : ProviderError) : Bool :=
  match failure.kind with
  | .http _ oversize => oversize
  | _ => false

def codeCap : Nat := 64

def isCode (code : String) : Bool :=
  decide (1 ≤ code.utf8ByteSize ∧ code.utf8ByteSize ≤ codeCap) &&
    code.toList.all fun c => c.isAlphanum || ['_', '.', ':', '-'].contains c

def code (failure : ProviderError) : Option String :=
  (failure.providerResponse.bind ProviderResponse.machineCode).filter isCode

def replyMaxBytes : Nat := 32 * 1024 * 1024

def unnamedEnd : String := "provider_error"

/-- `raise::provider`: a refusal by its status first, then what ended the reply. -/
def provider (failure : ProviderError) : Error :=
  match (failure.providerResponse.bind ProviderResponse.status).filter
      fun status => !(decide (200 ≤ status ∧ status < 300)) with
  | some status => .refused status (code failure) failure
  | none =>
      if oversize failure then .oversize replyMaxBytes failure
      else
        match failure.kind with
        | .http _ _ => .lost failure
        | .truncated => .lost failure
        | .provider => .ended unnamedEnd failure
        | .other =>
            if failure.providerResponse.isSome then
              .ended ((code failure).getD unnamedEnd) failure
            else .wire failure

/-- Whether a failure may pass on a second opening. -/
def reopens (failure : ProviderError) : Bool :=
  failure.providerResponse.isNone && failure.isRetryable && !oversize failure && !blocked failure

/-! ## The turn -/

/-- A lease's provider: its wire, and its name as the policy spells it. -/
structure Turns where
  api : InferenceApi
  provider : String

def Turns.failed (turns : Turns) (failure : ProviderError) : Error :=
  if blocked failure then .blockedEndpoint turns.provider else Turn.provider failure

abbrev Sent (Object Message : Type) := Except Error (Chunk Object Message)

def ending (turns : Turns) (response : CompletionResponse Message) : List (Sent Object Message) :=
  let cut := !(decide (response.finishReason = some .stop ∨
    response.finishReason = some .toolCalls))
  [.ok (.usage (spent turns.api response.usage response.raw)), .ok (.ended ⟨response.message, cut⟩)]

def attempts : Nat := 3

structure Reading (Object Message : Type) where
  attempt : Nat
  stream : StreamTurn Object Message
  shown : Bool
  reopen : Bool

inductive Pass (Object Message : Type) where
  | opening (attempt : Nat)
  | reading (reading : Reading Object Message)
  | ending (rest : List (Sent Object Message))
  | done

inductive Step (Object Message : Type) where
  | sends (chunk : Sent Object Message) (pass : Pass Object Message)
  | goes (pass : Pass Object Message)

def Reading.finished (turns : Turns) (r : Reading Object Message) : Step Object Message :=
  let result := r.stream.finish
  let known := result.response.usage.reported
  match result.failure with
  | none => .goes (.ending (Turn.ending turns result.response))
  | some failure =>
      if r.reopen && !known && !r.shown && decide (r.attempt < attempts) && reopens failure then
        .goes (.opening (r.attempt + 1))
      else
        let spent := spent turns.api result.response.usage result.response.raw
        let failure := turns.failed failure
        if known then .goes (.ending [.ok (.usage spent), .error failure])
        else .sends (.error failure) .done

def Reading.step (turns : Turns) (r : Reading Object Message) : Step Object Message :=
  match r.stream.next with
  | (stream, .event event) =>
      match chunk event with
      | some chunk => .sends (.ok chunk) (.reading { r with stream := stream, shown := true })
      | none => .goes (.reading { r with stream := stream })
  | (stream, .failed) => Reading.finished turns { r with stream := stream }
  | (stream, .ended) => Reading.finished turns { r with stream := stream }

structure Request (Object Message : Type) where
  openings : Nat → Except Error (Opened Object Message)
  singleAttempt : Bool

/-- One turn of the loop in `Pass::next`; `none` is the end of what the reader is sent. -/
def Pass.step (turns : Turns) (request : Request Object Message) :
    Pass Object Message → Option (Step Object Message)
  | .opening attempt =>
      match request.openings attempt with
      | .ok opened =>
          some (.goes (.reading ⟨attempt, opened.stream, false, !request.singleAttempt⟩))
      | .error failure => some (.sends (.error failure) .done)
  | .reading r => some (r.step turns)
  | .ending (chunk :: rest) => some (.sends chunk (.ending rest))
  | .ending [] => none
  | .done => none

structure Stream (Object Message : Type) where
  pass : Pass Object Message
  sent : List (Sent Object Message)
  opened : Nat
  closed : Bool

/-- `stream`: the unfolding from the first opening. -/
def Stream.start : Stream Object Message := ⟨.opening 1, [], 0, false⟩

def Pass.opens : Pass Object Message → Nat
  | .opening _ => 1
  | _ => 0

def Stream.advance (turns : Turns) (request : Request Object Message)
    (s : Stream Object Message) (_ : Unit) : Stream Object Message :=
  match s.pass.step turns request with
  | some (.sends chunk pass) => ⟨pass, s.sent ++ [chunk], s.opened + s.pass.opens, s.closed⟩
  | some (.goes pass) => ⟨pass, s.sent, s.opened + s.pass.opens, s.closed⟩
  | none => { s with closed := true }

/-! ## What one attempt shows -/

def visible : List (Arrival Object) → List (Chunk Object Message)
  | [] => []
  | .event event :: rest => (chunk event).toList ++ visible rest
  | .unknown :: rest => visible rest
  | .stopped _ :: _ => []

/-- What an attempt that is not opened again ends on. -/
def closing (turns : Turns) (result : TurnResult Message) : List (Sent Object Message) :=
  match result.failure with
  | none => ending turns result.response
  | some failure =>
      if result.response.usage.reported then
        [.ok (.usage (spent turns.api result.response.usage result.response.raw)),
          .error (turns.failed failure)]
      else [.error (turns.failed failure)]

def attemptSends (turns : Turns) : Except Error (Opened Object Message) → List (Sent Object Message)
  | .error failure => [.error failure]
  | .ok opened => (visible opened.arrivals).map .ok ++ closing turns opened.stream.finish

/-- An attempt that may be opened again: it showed nothing, spent nothing known and failed
in a way that may pass. -/
def Unshown : Except Error (Opened Object Message) → Prop
  | .error _ => False
  | .ok opened =>
      (visible opened.arrivals : List (Chunk Object Message)) = [] ∧
        opened.stream.finish.response.usage.reported = false ∧
        ∃ failure, opened.stream.finish.failure = some failure ∧ reopens failure = true

theorem readNext_spec (arrivals : List (Arrival Object)) :
    match readNext arrivals with
    | (rest, failure, .event event) =>
        failure = none ∧ stoppedBy arrivals = stoppedBy rest ∧ rest.length < arrivals.length ∧
          ∀ (Message : Type), (visible arrivals : List (Chunk Object Message)) =
            (chunk event).toList ++ visible rest
    | (_, failure, .failed) =>
        stoppedBy arrivals = failure ∧
          ∀ (Message : Type), (visible arrivals : List (Chunk Object Message)) = []
    | (_, failure, .ended) =>
        failure = none ∧ stoppedBy arrivals = none ∧
          ∀ (Message : Type), (visible arrivals : List (Chunk Object Message)) = [] := by
  induction arrivals with
  | nil => exact ⟨rfl, rfl, fun _ => rfl⟩
  | cons arrival rest ih =>
      cases arrival with
      | event event => exact ⟨rfl, rfl, Nat.lt_succ_self _, fun _ => rfl⟩
      | stopped failure => exact ⟨rfl, fun _ => rfl⟩
      | unknown =>
          rw [readNext]
          split at ih
          · exact ⟨ih.1, ih.2.1, Nat.lt_trans ih.2.2.1 (Nat.lt_succ_self _), ih.2.2.2⟩
          · exact ih
          · exact ih

/-- An attempt read so far without a failure: what is left stops as the whole does. -/
structure Unread (opened : Opened Object Message) (s : StreamTurn Object Message) : Prop where
  same : s.opened = opened
  live : s.ended = false
  unfailed : s.failure = none
  stops : stoppedBy s.arrivals = stoppedBy opened.arrivals

theorem Opened.unread (opened : Opened Object Message) : Unread opened opened.stream :=
  ⟨rfl, rfl, rfl, rfl⟩

theorem finish_ended {opened : Opened Object Message} {s : StreamTurn Object Message}
    (same : s.opened = opened) (ended : s.ended = true)
    (failure : s.failure = stoppedBy opened.arrivals) : s.finish = opened.stream.finish := by
  rw [StreamTurn.finish, StreamTurn.finish, same, ended, if_pos rfl, failure]
  rfl

theorem next_spec {opened : Opened Object Message} {s : StreamTurn Object Message}
    (unread : Unread opened s) :
    match s.next with
    | (next, .event event) =>
        Unread opened next ∧ next.arrivals.length < s.arrivals.length ∧
          (visible s.arrivals : List (Chunk Object Message)) =
            (chunk event).toList ++ visible next.arrivals
    | (next, .failed) =>
        next.finish = opened.stream.finish ∧ (visible s.arrivals : List (Chunk Object Message)) = []
    | (next, .ended) =>
        next.finish = opened.stream.finish ∧
          (visible s.arrivals : List (Chunk Object Message)) = [] := by
  have read := readNext_spec s.arrivals
  rw [StreamTurn.next, unread.live, if_neg Bool.false_ne_true]
  obtain ⟨same, live, unfailed, stops⟩ := unread
  rcases answer : readNext s.arrivals with ⟨rest, failure, word⟩
  rw [answer] at read
  cases word with
  | event event =>
      obtain ⟨_, later, shorter, shows_⟩ := read
      exact ⟨⟨same, rfl, unfailed, later.symm.trans stops⟩, shorter, shows_ Message⟩
  | failed =>
      obtain ⟨stopped, shows_⟩ := read
      exact ⟨finish_ended same rfl (stopped.symm.trans stops), shows_ Message⟩
  | ended =>
      obtain ⟨_, stopped, shows_⟩ := read
      exact ⟨finish_ended same rfl (unfailed.trans (stopped.symm.trans stops)), shows_ Message⟩

/-! ## The invariant -/

def Request.limit (request : Request Object Message) : Nat :=
  if request.singleAttempt then 1 else attempts

def Stream.attempt (s : Stream Object Message) : Nat :=
  match s.pass with
  | .opening attempt => attempt
  | _ => s.opened

def Follows (turns : Turns) (request : Request Object Message) (sent : List (Sent Object Message))
    (opened : Nat) (closed : Bool) : Pass Object Message → Prop
  | .opening attempt => closed = false ∧ attempt = opened + 1 ∧ sent = []
  | .reading r =>
      closed = false ∧ r.attempt = opened ∧ r.reopen = !request.singleAttempt ∧
        (r.shown = false → sent = []) ∧
        ∃ attempt, request.openings opened = .ok attempt ∧ Unread attempt r.stream ∧
          sent ++ (visible r.stream.arrivals).map .ok = (visible attempt.arrivals).map .ok
  | .ending rest =>
      (closed = true → rest = []) ∧ sent ++ rest = attemptSends turns (request.openings opened)
  | .done => sent = attemptSends turns (request.openings opened)

structure Tracked (turns : Turns) (request : Request Object Message)
    (s : Stream Object Message) : Prop where
  first : 0 < s.attempt
  limit : s.attempt ≤ request.limit
  unshown : ∀ earlier, 0 < earlier → earlier < s.attempt → Unshown (request.openings earlier)
  follows : Follows turns request s.sent s.opened s.closed s.pass

theorem start_tracked (turns : Turns) (request : Request Object Message) :
    Tracked turns request Stream.start := by
  refine ⟨Nat.one_pos, ?_, fun earlier some_ before => ?_, rfl, rfl, rfl⟩
  · change 1 ≤ request.limit
    rw [Request.limit]
    split
    · exact Nat.le_refl 1
    · decide
  · change earlier < 1 at before
    omega

theorem finished_spec (turns : Turns) (r : Reading Object Message) :
    (Reading.finished turns r = .goes (.opening (r.attempt + 1)) ∧
        r.reopen = true ∧ r.shown = false ∧ r.attempt < attempts ∧
        r.stream.finish.response.usage.reported = false ∧
        ∃ failure, r.stream.finish.failure = some failure ∧ reopens failure = true) ∨
      Reading.finished turns r = .goes (.ending (closing turns r.stream.finish)) ∨
      ∃ chunk, Reading.finished turns r = .sends chunk .done ∧
        closing turns r.stream.finish = [chunk] := by
  rw [Reading.finished, closing]
  cases failed : r.stream.finish.failure with
  | none => exact .inr (.inl rfl)
  | some failure =>
      dsimp only
      split
      · rename_i again
        simp only [Bool.and_eq_true, Bool.not_eq_true', decide_eq_true_eq] at again
        obtain ⟨⟨⟨⟨reopen, unknown⟩, unshown⟩, left⟩, passes⟩ := again
        exact .inl ⟨rfl, reopen, unshown, left, unknown, failure, rfl, passes⟩
      · split
        · exact .inr (.inl rfl)
        · exact .inr (.inr ⟨_, rfl, rfl⟩)

theorem step_cases (turns : Turns) {opened : Opened Object Message} {r : Reading Object Message}
    (unread : Unread opened r.stream) :
    (∃ next chunk, r.step turns = .sends (.ok chunk)
          (.reading { r with stream := next, shown := true }) ∧
        Unread opened next ∧ next.arrivals.length < r.stream.arrivals.length ∧
        visible r.stream.arrivals = chunk :: visible next.arrivals) ∨
      (∃ next, r.step turns = .goes (.reading { r with stream := next }) ∧
        Unread opened next ∧ next.arrivals.length < r.stream.arrivals.length ∧
        (visible r.stream.arrivals : List (Chunk Object Message)) = visible next.arrivals) ∨
      ∃ next, r.step turns = Reading.finished turns { r with stream := next } ∧
        next.finish = opened.stream.finish ∧
        (visible r.stream.arrivals : List (Chunk Object Message)) = [] := by
  have read := next_spec unread
  rw [Reading.step]
  rcases answer : r.stream.next with ⟨next, word⟩
  rw [answer] at read
  cases word with
  | event event =>
      obtain ⟨still, shorter, shows_⟩ := read
      dsimp only
      cases seen : (chunk event : Option (Chunk Object Message)) with
      | some shown =>
          rw [seen] at shows_
          exact .inl ⟨next, shown, rfl, still, shorter, shows_⟩
      | none =>
          rw [seen] at shows_
          exact .inr (.inl ⟨next, rfl, still, shorter, shows_⟩)
  | failed => exact .inr (.inr ⟨next, rfl, read⟩)
  | ended => exact .inr (.inr ⟨next, rfl, read⟩)

theorem reading_tracked {turns : Turns} {request : Request Object Message}
    {r : Reading Object Message} {sent : List (Sent Object Message)} {opened : Nat}
    (tracked : Tracked turns request ⟨.reading r, sent, opened, false⟩) :
    Tracked turns request
      (Stream.advance turns request ⟨.reading r, sent, opened, false⟩ ()) := by
  obtain ⟨first, limit, unshown, _, same, reopen, before, attempt, answered, unread, split_⟩ :=
    tracked
  dsimp only at same before answered split_
  rw [Stream.advance, Pass.step]
  obtain ⟨next, shown, sends, still, _, shows_⟩ | ⟨next, goes, still, _, shows_⟩ |
    ⟨next, ended, folded, drained⟩ := step_cases turns unread
  · rw [sends]
    refine ⟨first, limit, unshown, rfl, same, reopen, nofun, attempt, answered, still, ?_⟩
    rw [← split_, shows_, List.append_assoc]
    rfl
  · rw [goes]
    refine ⟨first, limit, unshown, rfl, same, reopen, before, attempt, answered, still, ?_⟩
    rw [← split_, shows_]
  · rw [drained, List.map_nil, List.append_nil] at split_
    have whole : sent ++ closing turns next.finish =
        attemptSends turns (request.openings opened) := by
      rw [split_, folded, answered]
      rfl
    rw [ended]
    obtain ⟨again, reopened, dark, left, unknown, failing⟩ | closes | ⟨chunk, sends, only⟩ :=
      finished_spec turns { r with stream := next }
    · rw [again]
      have none_sent := before dark
      have several : request.singleAttempt = false := by
        rw [reopen] at reopened
        simpa using reopened
      refine ⟨Nat.succ_pos _, ?_, fun earlier some_ sooner => ?_, rfl, congrArg (· + 1) same,
        none_sent⟩
      · change r.attempt + 1 ≤ request.limit
        rw [Request.limit, several]
        exact left
      · change earlier < r.attempt + 1 at sooner
        by_cases this_one : earlier = opened
        · rw [this_one, answered]
          refine ⟨?_, folded ▸ unknown, folded ▸ failing⟩
          rw [none_sent] at split_
          exact List.map_eq_nil_iff.mp split_.symm
        · exact unshown earlier some_ (by
            change earlier < opened
            omega)
    · rw [closes]
      exact ⟨first, limit, unshown, nofun, whole⟩
    · rw [sends]
      refine ⟨first, limit, unshown, ?_⟩
      change sent ++ [chunk] = attemptSends turns (request.openings opened)
      rw [← only]
      exact whole

theorem advance_tracked (turns : Turns) (request : Request Object Message)
    (s : Stream Object Message) (poll : Unit) (tracked : Tracked turns request s) :
    Tracked turns request (s.advance turns request poll) := by
  obtain ⟨pass, sent, opened, closed⟩ := s
  cases pass with
  | opening attempt =>
      obtain ⟨first, limit, unshown, live, next, none_sent⟩ := tracked
      dsimp only at live next none_sent
      subst live next none_sent
      rw [Stream.advance, Pass.step]
      cases answered : request.openings (opened + 1) with
      | ok attempt =>
          exact ⟨first, limit, unshown, rfl, rfl, rfl, fun _ => rfl, attempt, answered,
            attempt.unread, rfl⟩
      | error failure =>
          refine ⟨first, limit, unshown, ?_⟩
          change [Except.error failure] = attemptSends turns (request.openings (opened + 1))
          rw [answered]
          rfl
  | reading r =>
      obtain rfl : closed = false := tracked.follows.1
      exact reading_tracked tracked
  | ending rest =>
      obtain ⟨first, limit, unshown, left, whole⟩ := tracked
      cases rest with
      | nil => exact ⟨first, limit, unshown, fun _ => rfl, whole⟩
      | cons chunk rest =>
          have follows : Follows turns request (sent ++ [chunk]) opened closed (.ending rest) := by
            refine ⟨fun past => ?_, ?_⟩
            · nomatch left past
            · rw [List.append_assoc]
              exact whole
          exact ⟨first, limit, unshown, follows⟩
  | done => exact ⟨tracked.first, tracked.limit, tracked.unshown, tracked.follows⟩

/-! ## What the reader sees -/

def isLast : Sent Object Message → Bool
  | .error _ => true
  | .ok (.ended _) => true
  | .ok _ => false

def isUsage : Sent Object Message → Bool
  | .ok (.usage _) => true
  | _ => false

theorem chunk_plain {event : StreamEvent Object} {shown : Chunk Object Message}
    (carried : chunk event = some shown) :
    isLast (.ok shown : Sent Object Message) = false ∧
      isUsage (.ok shown : Sent Object Message) = false := by
  cases event with
  | text text => obtain rfl := Option.some.inj carried; exact ⟨rfl, rfl⟩
  | reasoning text => obtain rfl := Option.some.inj carried; exact ⟨rfl, rfl⟩
  | start => nomatch carried
  | arguments => nomatch carried
  | ended content =>
      cases content with
      | toolCall call => obtain rfl := Option.some.inj carried; exact ⟨rfl, rfl⟩
      | other => nomatch carried

theorem visible_plain (arrivals : List (Arrival Object)) :
    ∀ item ∈ (visible arrivals).map (.ok : Chunk Object Message → Sent Object Message),
      isLast item = false ∧ isUsage item = false := by
  induction arrivals with
  | nil => exact fun _ member => nomatch member
  | cons arrival rest ih =>
      cases arrival with
      | event event =>
          intro item member
          rw [visible, List.map_append] at member
          rcases List.mem_append.mp member with here | later
          · obtain ⟨shown, carried, rfl⟩ := List.mem_map.mp here
            exact chunk_plain (Option.mem_toList.mp carried)
          · exact ih item later
      | unknown => exact ih
      | stopped failure => exact fun _ member => nomatch member

theorem attemptSends_shape (turns : Turns) (opening : Except Error (Opened Object Message)) :
    ∃ shown usage last, attemptSends turns opening = shown ++ (usage ++ [last]) ∧
      (∀ item ∈ shown, isLast item = false ∧ isUsage item = false) ∧
      isLast last = true ∧ isUsage last = false ∧
      (usage = [] ∨ ∃ count, usage = [.ok (.usage count)]) ∧
      ∀ opened, opening = .ok opened →
        opened.stream.finish.response.usage.reported = true →
        usage = [.ok (.usage (spent turns.api opened.stream.finish.response.usage
          opened.stream.finish.response.raw))] := by
  cases opening with
  | error failure =>
      exact ⟨[], [], .error failure, rfl, fun _ member => (nomatch member), rfl, rfl, .inl rfl,
        fun _ same => (nomatch same)⟩
  | ok opened =>
      have plain : ∀ item ∈ (visible opened.arrivals).map
          (.ok : Chunk Object Message → Sent Object Message),
          isLast item = false ∧ isUsage item = false := visible_plain opened.arrivals
      let paid : Sent Object Message := .ok (.usage (spent turns.api
        opened.stream.finish.response.usage opened.stream.finish.response.raw))
      have named : ∀ other, (Except.ok opened : Except Error (Opened Object Message)) = .ok other →
          opened = other := fun _ same => Except.ok.inj same
      cases failed : opened.stream.finish.failure with
      | none =>
          obtain ⟨last, closes⟩ : ∃ last : End Message,
              closing turns opened.stream.finish = [paid, .ok (.ended last)] := by
            rw [closing, failed]
            exact ⟨_, rfl⟩
          refine ⟨(visible opened.arrivals).map .ok, [paid], .ok (.ended last), ?_, plain, rfl, rfl,
            .inr ⟨_, rfl⟩, fun other same _ => ?_⟩
          · rw [attemptSends, closes]
            rfl
          · rw [← named other same]
      | some failure =>
          by_cases known : opened.stream.finish.response.usage.reported = true
          · refine ⟨(visible opened.arrivals).map .ok, [paid], .error (turns.failed failure), ?_,
              plain, rfl, rfl, .inr ⟨_, rfl⟩, fun other same _ => ?_⟩
            · rw [attemptSends, closing, failed]
              dsimp only
              rw [if_pos known]
              rfl
            · rw [← named other same]
          · refine ⟨(visible opened.arrivals).map .ok, [], .error (turns.failed failure), ?_,
              plain, rfl, rfl, .inl rfl, fun other same reported => ?_⟩
            · rw [attemptSends, closing, failed]
              dsimp only
              rw [if_neg known]
              rfl
            · rw [← named other same] at reported
              exact absurd reported known

theorem Tracked.sent_prefix {turns : Turns} {request : Request Object Message}
    {s : Stream Object Message} (tracked : Tracked turns request s) :
    s.opened = 0 ∧ s.sent = [] ∨ s.sent <+: attemptSends turns (request.openings s.opened) := by
  obtain ⟨pass, sent, opened, closed⟩ := s
  have follows := tracked.follows
  cases pass with
  | opening attempt => exact .inr (follows.2.2 ▸ List.nil_prefix)
  | reading r =>
      obtain ⟨_, _, _, _, attempt, answered, _, split_⟩ := follows
      dsimp only at answered split_ ⊢
      rw [answered, attemptSends, ← split_, List.append_assoc]
      exact .inr (List.prefix_append _ _)
  | ending rest => exact .inr ⟨rest, follows.2⟩
  | done => exact .inr (follows ▸ List.prefix_rfl)

theorem last_of_prefix {Item : Type} {ends : Item → Bool} {body before after : List Item}
    {last item : Item} (early : ∀ other ∈ body, ends other = false)
    (sent : before ++ item :: after <+: body ++ [last]) (here : ends item = true) :
    after = [] ∧ before ++ item :: after = body ++ [last] := by
  induction body generalizing before with
  | nil =>
      cases before with
      | nil =>
          obtain ⟨same, rest⟩ := List.cons_prefix_cons.mp sent
          obtain rfl : after = [] := List.prefix_nil.mp rest
          exact ⟨rfl, congrArg (fun only => [only]) same⟩
      | cons first before =>
          obtain ⟨_, rest⟩ := List.cons_prefix_cons.mp sent
          exact absurd (List.prefix_nil.mp rest) (List.append_ne_nil_of_right_ne_nil _ nofun)
  | cons next body ih =>
      cases before with
      | nil =>
          obtain ⟨same, _⟩ := List.cons_prefix_cons.mp sent
          rw [same, early next List.mem_cons_self] at here
          nomatch here
      | cons first before =>
          obtain ⟨same, rest⟩ := List.cons_prefix_cons.mp sent
          obtain ⟨none_after, whole⟩ :=
            ih (fun other member => early other (List.mem_cons_of_mem _ member)) rest
          exact ⟨none_after, by rw [List.cons_append, List.cons_append, same, whole]⟩

theorem attemptSends_last {turns : Turns} {opening : Except Error (Opened Object Message)}
    {before after : List (Sent Object Message)} {item : Sent Object Message}
    (sent : before ++ item :: after <+: attemptSends turns opening) (here : isLast item = true) :
    after = [] ∧ before ++ item :: after = attemptSends turns opening := by
  obtain ⟨shown, usage, last, whole, plain, _, _, paid, _⟩ := attemptSends_shape turns opening
  rw [whole, ← List.append_assoc] at sent ⊢
  refine last_of_prefix (fun other member => ?_) sent here
  rcases List.mem_append.mp member with early | spent
  · exact (plain other early).1
  · rcases paid with rfl | ⟨count, rfl⟩
    · nomatch spent
    · rw [List.mem_singleton.mp spent]
      rfl

theorem attemptSends_usage (turns : Turns) (opening : Except Error (Opened Object Message)) :
    (attemptSends turns opening).countP isUsage ≤ 1 := by
  obtain ⟨shown, usage, last, whole, plain, _, notUsage, paid, _⟩ :=
    attemptSends_shape turns opening
  have none_shown : shown.countP isUsage = 0 := List.countP_eq_zero.mpr fun item member => by
    rw [(plain item member).2]
    exact Bool.false_ne_true
  rw [whole, List.countP_append, List.countP_append, none_shown, List.countP_singleton, notUsage]
  rcases paid with rfl | ⟨count, rfl⟩
  · exact Nat.zero_le _
  · exact Nat.le_refl _

/-- After any polls of a turn: it opened no more attempts than it may, and none again that
showed anything or reported usage; what it sent is what its last attempt sends, so far; its
failure or its end comes last, known usage once and right before it. -/
theorem shows_one_attempt (turns : Turns) (request : Request Object Message)
    (polls : List Unit) :
    let s := Run.final (Stream.advance turns request) Stream.start polls
    s.opened ≤ (if request.singleAttempt then 1 else attempts) ∧
      (∀ earlier, 0 < earlier → earlier < s.opened → Unshown (request.openings earlier)) ∧
      (s.opened = 0 ∧ s.sent = [] ∨
        s.sent <+: attemptSends turns (request.openings s.opened)) ∧
      (∀ before item after, s.sent = before ++ item :: after → isLast item = true →
        after = [] ∧ s.sent = attemptSends turns (request.openings s.opened)) ∧
      s.sent.countP isUsage ≤ 1 ∧
      ∀ opened, request.openings s.opened = .ok opened →
        opened.stream.finish.response.usage.reported = true →
        (∃ item ∈ s.sent, isLast item = true) →
        ∃ shown last, s.sent = shown ++ [.ok (.usage (spent turns.api
            opened.stream.finish.response.usage opened.stream.finish.response.raw)), last] ∧
          isLast last = true ∧ ∀ item ∈ shown, isLast item = false ∧ isUsage item = false := by
  intro s
  have tracked := Run.invariant_of_step (Tracked turns request) (advance_tracked turns request)
    (start_tracked turns request) polls s (Run.final_mem_states _ _ _)
  have follows := tracked.sent_prefix
  have opened_le : s.opened ≤ s.attempt := by
    generalize s = here at tracked ⊢
    obtain ⟨pass, sent, opened, closed⟩ := here
    cases pass with
    | opening attempt =>
        have next : attempt = opened + 1 := tracked.follows.2.1
        change opened ≤ attempt
        omega
    | _ => exact Nat.le_refl _
  have only : ∀ before item after, s.sent = before ++ item :: after → isLast item = true →
      after = [] ∧ s.sent = attemptSends turns (request.openings s.opened) := by
    intro before item after parts here
    rcases follows with ⟨_, empty⟩ | sends
    · rw [empty] at parts
      exact absurd parts.symm (List.append_ne_nil_of_right_ne_nil _ nofun)
    · rw [parts] at sends ⊢
      exact attemptSends_last sends here
  refine ⟨Nat.le_trans opened_le tracked.limit, fun earlier some_ before =>
    tracked.unshown earlier some_ (Nat.lt_of_lt_of_le before opened_le), follows, only, ?_, ?_⟩
  · rcases follows with ⟨_, empty⟩ | sends
    · rw [empty]
      exact Nat.zero_le _
    · exact Nat.le_trans sends.sublist.countP_le (attemptSends_usage turns _)
  · intro opened answered known ⟨item, found, here⟩
    obtain ⟨before, after, parts⟩ := List.append_of_mem found
    obtain ⟨shown, usage, last, whole, plain, ends, _, _, paid⟩ :=
      attemptSends_shape turns (request.openings s.opened)
    refine ⟨shown, last, ?_, ends, plain⟩
    rw [(only before item after parts here).2, whole, paid opened answered known]
    rfl

/-! ## The turn ends -/

def Request.cost (request : Request Object Message) (attempt : Nat) : Nat :=
  match request.openings attempt with
  | .ok opened => opened.arrivals.length + 6
  | .error _ => 3

/-- The same for the attempts from `attempt` on. -/
def Request.costFrom (request : Request Object Message) (attempt : Nat) : Nat :=
  ((List.range' attempt (attempts + 1 - attempt)).map request.cost).sum

def Stream.left (request : Request Object Message) (s : Stream Object Message) : Nat :=
  if s.closed then 0
  else
    match s.pass with
    | .opening attempt => request.costFrom attempt
    | .reading r => r.stream.arrivals.length + 4 + request.costFrom (r.attempt + 1)
    | .ending rest => rest.length + 1
    | .done => 1

theorem costFrom_step (request : Request Object Message) {attempt : Nat}
    (more : attempt ≤ attempts) :
    request.costFrom attempt = request.cost attempt + request.costFrom (attempt + 1) := by
  have count : attempts + 1 - attempt = (attempts + 1 - (attempt + 1)) + 1 := by omega
  rw [Request.costFrom, Request.costFrom, count, List.range'_succ, List.map_cons, List.sum_cons]

theorem closing_length (turns : Turns) (result : TurnResult Message) :
    (closing turns result : List (Sent Object Message)).length ≤ 2 := by
  rw [closing]
  split
  · exact Nat.le_refl 2
  · split
    · exact Nat.le_refl 2
    · exact Nat.le_succ 1

theorem reading_lowers {turns : Turns} {request : Request Object Message}
    {r : Reading Object Message} {sent : List (Sent Object Message)} {opened : Nat}
    (tracked : Tracked turns request ⟨.reading r, sent, opened, false⟩) :
    (Stream.advance turns request ⟨.reading r, sent, opened, false⟩ ()).left request <
      Stream.left request ⟨.reading r, sent, opened, false⟩ := by
  obtain ⟨_, _, _, _, _, _, _, attempt, _, unread, _⟩ := tracked
  rw [Stream.advance, Pass.step]
  obtain ⟨next, shown, sends, _, shorter, _⟩ | ⟨next, goes, _, shorter, _⟩ |
    ⟨next, ended, _, _⟩ := step_cases turns unread
  · rw [sends]
    change next.arrivals.length + 4 + request.costFrom (r.attempt + 1) <
      r.stream.arrivals.length + 4 + request.costFrom (r.attempt + 1)
    omega
  · rw [goes]
    change next.arrivals.length + 4 + request.costFrom (r.attempt + 1) <
      r.stream.arrivals.length + 4 + request.costFrom (r.attempt + 1)
    omega
  · rw [ended]
    obtain ⟨again, _⟩ | closes | ⟨chunk, sends, _⟩ :=
      finished_spec turns { r with stream := next }
    · rw [again]
      change request.costFrom (r.attempt + 1) <
        r.stream.arrivals.length + 4 + request.costFrom (r.attempt + 1)
      omega
    · rw [closes]
      have short : (closing turns next.finish : List (Sent Object Message)).length ≤ 2 :=
        closing_length turns next.finish
      change (closing turns next.finish).length + 1 <
        r.stream.arrivals.length + 4 + request.costFrom (r.attempt + 1)
      omega
    · rw [sends]
      change 1 < r.stream.arrivals.length + 4 + request.costFrom (r.attempt + 1)
      omega

theorem advance_lowers (turns : Turns) (request : Request Object Message)
    (s : Stream Object Message) (tracked : Tracked turns request s) (running : ¬ s.closed = true) :
    (s.advance turns request ()).left request < s.left request := by
  obtain ⟨pass, sent, opened, closed⟩ := s
  obtain rfl : closed = false := Bool.eq_false_iff.mpr running
  cases pass with
  | opening attempt =>
      have more : attempt ≤ attempts := by
        have bound := tracked.limit
        change attempt ≤ request.limit at bound
        rw [Request.limit] at bound
        split at bound
        · exact Nat.le_trans bound (by decide)
        · exact bound
      have cost := costFrom_step request more
      change Stream.left request _ < request.costFrom attempt
      rw [Stream.advance, Pass.step, cost, Request.cost]
      cases request.openings attempt with
      | ok opened =>
          change opened.arrivals.length + 4 + request.costFrom (attempt + 1) <
            opened.arrivals.length + 6 + request.costFrom (attempt + 1)
          omega
      | error failure =>
          change 1 < 3 + request.costFrom (attempt + 1)
          omega
  | reading r => exact reading_lowers tracked
  | ending rest =>
      cases rest with
      | nil => exact Nat.one_pos
      | cons chunk rest => exact Nat.lt_succ_self _
  | done => exact Nat.one_pos

theorem turn_over (turns : Turns) (request : Request Object Message) :
    let s := Run.final (Stream.advance turns request) Stream.start
      (List.replicate (request.costFrom 1) ())
    s.closed = true ∧ s.sent = attemptSends turns (request.openings s.opened) := by
  intro s
  have tracked := Run.invariant_of_step (Tracked turns request) (advance_tracked turns request)
    (start_tracked turns request) (List.replicate (request.costFrom 1) ()) s
    (Run.final_mem_states _ _ _)
  have closed : s.closed = true :=
    Run.done_of_measure (Stream.advance turns request) () (Stream.left request)
      (fun state held => advance_tracked turns request state () held)
      (fun state past => by
        rw [Stream.advance]
        split
        · exact past
        · exact past
        · rfl)
      (advance_lowers turns request) (start_tracked turns request) (Nat.le_refl _)
  refine ⟨closed, ?_⟩
  generalize s = here at tracked closed
  obtain ⟨pass, sent, opened, over_⟩ := here
  have follows := tracked.follows
  cases pass with
  | opening attempt => exact nomatch follows.1.symm.trans closed
  | reading r => exact nomatch follows.1.symm.trans closed
  | ending rest =>
      obtain ⟨left, whole⟩ := follows
      rw [left closed, List.append_nil] at whole
      exact whole
  | done => exact follows

end

end Agentsfleet.Providers.Turn
