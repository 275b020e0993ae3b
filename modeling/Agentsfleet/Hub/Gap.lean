import Agentsfleet.Library.Trace
import Mathlib.Data.List.Basic

/-!
# Who lost a subscription

What the dispatch task of one connection knows about the node losses it has seen,
and a run of everything that reaches it.  The hub re-subscribes every channel it
holds after a loss, and each re-subscribe earns one confirmation, which may come in
any order; what a confirmation answers is known here and not to the code.
-/

set_option autoImplicit false

namespace Agentsfleet.Hub

open Agentsfleet.Library

def nodeRepairWindow : Nat := 5000000000

inductive Cause where
  | nodeRepaired
  | slotMoved
  | reconnected
  | resubscribed
deriving DecidableEq, Repr

inductive Loss where
  | unexplained
  | simultaneous
  | closed
  | commandFailed
deriving DecidableEq, Repr

/-! ## Attribution -/

structure Attribution where
  repair : Option Nat
  repairing : List String
  moved : List String
  redialled : List String
deriving DecidableEq

namespace Attribution

def new (redialled : List String) : Attribution := ⟨none, [], [], redialled⟩

variable (a : Attribution)

/-- A node's socket died while the hub held `live`. -/
def disconnected (now : Nat) (live : List String) : Attribution × Option Loss :=
  if a.repair.isSome then (a, some .simultaneous)
  else
    ({ a with
      repair := if live = [] then a.repair else some (now + nodeRepairWindow)
      repairing := live ∪ a.repairing }, none)

/-- The hub is about to re-subscribe `channel` because its slot moved. -/
def slotMoved (channel : String) : Attribution := { a with moved := a.moved.insert channel }

/-- `channel` was confirmed again. -/
def replayed (channel : String) : Attribution × Cause :=
  if channel ∈ a.moved then ({ a with moved := a.moved.filter (· ≠ channel) }, .slotMoved)
  else if channel ∈ a.redialled then
    ({ a with redialled := a.redialled.filter (· ≠ channel) }, .reconnected)
  else
    let after := { a with repair := none, repairing := a.repairing.filter (· ≠ channel) }
    if a.repair.isSome ∨ channel ∈ a.repairing then (after, .nodeRepaired)
    else (after, .resubscribed)

/-- `some` when the pending loss's window has closed unexplained. -/
def expired (now : Nat) : Attribution × Option Loss :=
  match a.repair with
  | none => (a, none)
  | some deadline =>
      if deadline ≤ now then ({ a with repair := none }, some .unexplained) else (a, none)

end Attribution

/-- The channels in `live` that `held` does not name. -/
def joined (held live : List String) : List String := live.filter (· ∉ held)

/-! ## One connection -/

/-- What a re-subscribe was sent for; a driver's own replay answers none of the hub's. -/
inductive Origin where
  | loss (index : Nat)
  | move
  | redial
  | driver
deriving DecidableEq, Repr

/-- The loss the deadline stands for: which disconnection, the channels re-subscribed
because of it, and the end of its own window. -/
structure Pending where
  index : Nat
  channels : List String
  deadline : Nat
deriving DecidableEq

/-- A connection's dispatch state, the channels each disconnection so far found live,
the loss pending, the re-subscribes no confirmation has answered, and the loss that
ended the connection. -/
structure Connection where
  attribution : Attribution
  repairs : List (List String)
  pending : Option Pending
  outstanding : List (Origin × String)
  lost : Option Loss
deriving DecidableEq

def Connection.new (redialled : List String) : Connection :=
  ⟨.new redialled, [], none, redialled.map fun channel => (.redial, channel), none⟩

inductive Event where
  | disconnected (now : Nat) (live : List String)
  | moved (channel : String)
  /-- The repair of a loss reads the channel table again before it re-subscribes. -/
  | joined (index : Nat) (live : List String)
  | confirmed (origin : Origin) (channel : String)
  | tick (now : Nat)
deriving DecidableEq

namespace Connection

variable (c : Connection)

def disconnect (now : Nat) (live : List String) : Connection :=
  match c.attribution.disconnected now live with
  | (_, some loss) => { c with lost := some loss }
  | (attribution, none) =>
      { c with
        attribution := attribution
        repairs := c.repairs ++ [live]
        pending :=
          if live = [] then c.pending
          else some ⟨c.repairs.length, live, now + nodeRepairWindow⟩
        outstanding := c.outstanding ++ live.map fun channel => (.loss c.repairs.length, channel) }

def move (channel : String) : Connection :=
  { c with
    attribution := c.attribution.slotMoved channel
    outstanding := c.outstanding ++ [(.move, channel)] }

def join (index : Nat) (live : List String) : Connection :=
  match c.repairs[index]? with
  | none => c
  | some held =>
      { c with
        pending := c.pending.map fun pending =>
          if pending.index = index then
            { pending with channels := pending.channels ++ joined held live }
          else pending
        outstanding :=
          c.outstanding ++ (joined held live).map fun channel => (.loss index, channel) }

/-- A confirmation that answers no re-subscribe of the hub's is a driver's replay. -/
def confirm (origin : Origin) (channel : String) : Connection :=
  if origin = .driver ∨ (origin, channel) ∈ c.outstanding then
    let attribution := (c.attribution.replayed channel).1
    { c with
      attribution := attribution
      pending := if attribution.repair = none then none else c.pending
      outstanding := c.outstanding.erase (origin, channel) }
  else c

def tick (now : Nat) : Connection :=
  match c.attribution.expired now with
  | (attribution, some loss) =>
      { c with attribution := attribution, pending := none, lost := some loss }
  | (_, none) => c

def step (event : Event) : Connection :=
  if c.lost.isSome then c
  else
    match event with
    | .disconnected now live => c.disconnect now live
    | .moved channel => c.move channel
    | .joined index live => c.join index live
    | .confirmed origin channel => c.confirm origin channel
    | .tick now => c.tick now

end Connection

/-! ## What a loss is owed -/

abbrev Taken := Run.Taken Connection Event

/-- The same loss is still pending; more channels may have joined its repair. -/
def Pending.Same (first second : Pending) : Prop :=
  first.index = second.index ∧ first.deadline = second.deadline

inductive Ended (loss : Pending) : Event → Connection → Prop
  | simultaneous {now live after} (lost : after.lost = some .simultaneous) :
      Ended loss (.disconnected now live) after
  | unexplained {now after} (over_ : loss.deadline ≤ now) (lost : after.lost = some .unexplained) :
      Ended loss (.tick now) after
  | answered {origin channel after} (held : channel ∈ loss.channels)
      (own : ∀ earlier < loss.index, origin ≠ .loss earlier) :
      Ended loss (.confirmed origin channel) after

structure Accounted (before : Connection) (event : Event) (after : Connection) : Prop where
  /-- A disconnection that finds channels live is reported, or waited on to the end of
  its own window. -/
  armed : ∀ now live, event = .disconnected now live → live ≠ [] →
    after.lost = some .simultaneous ∨
      after.pending = some ⟨before.repairs.length, live, now + nodeRepairWindow⟩
  /-- A pending loss stays pending until it is ended. -/
  kept : ∀ loss, before.pending = some loss →
    (∃ still, after.pending = some still ∧ loss.Same still) ∨ Ended loss event after
  /-- A clock past the window ends it. -/
  closed : ∀ now loss, event = .tick now → before.pending = some loss → loss.deadline ≤ now →
    after.lost = some .unexplained

/-- Every step of a run, while the connection stands, accounts for its losses. -/
def NoneForgotten (history : List Taken) : Prop :=
  ∀ t ∈ history, t.before.lost = none → Accounted t.before t.event t.after

/-- A confirmation the pending loss is ended by is one of its own: the channel was
re-subscribed because of it, and no re-subscribe of an earlier loss is what it answers. -/
def Answers (c : Connection) : Event → Prop
  | .confirmed origin channel => c.lost = none →
      (origin = .driver ∨ (origin, channel) ∈ c.outstanding) →
      channel ∉ c.attribution.moved → channel ∉ c.attribution.redialled →
      ∀ loss, c.pending = some loss →
        channel ∈ loss.channels ∧ ∀ earlier < loss.index, origin ≠ .loss earlier
  | _ => True

/-! ## Steps -/

def Connection.Sound (c : Connection) : Prop :=
  c.attribution.repair = c.pending.map Pending.deadline

namespace Connection

variable {c : Connection}

theorem new_sound (redialled : List String) : (new redialled).Sound := rfl

theorem replayed_cases (a : Attribution) (channel : String) :
    (a.replayed channel).1.repair = a.repair ∧ (channel ∈ a.moved ∨ channel ∈ a.redialled) ∨
      (a.replayed channel).1.repair = none ∧ channel ∉ a.moved ∧ channel ∉ a.redialled := by
  rw [Attribution.replayed]
  by_cases moved : channel ∈ a.moved
  · rw [if_pos moved]
    exact Or.inl ⟨rfl, Or.inl moved⟩
  · rw [if_neg moved]
    by_cases redialled : channel ∈ a.redialled
    · rw [if_pos redialled]
      exact Or.inl ⟨rfl, Or.inr redialled⟩
    · rw [if_neg redialled]
      refine Or.inr ⟨?_, moved, redialled⟩
      dsimp only
      split
      · rfl
      · rfl

theorem disconnect_pending (sound : c.Sound) {now : Nat} {live : List String} {loss : Pending}
    (pending : c.pending = some loss) :
    c.disconnect now live = { c with lost := some .simultaneous } := by
  have armed : c.attribution.repair.isSome = true := by rw [sound, pending]; rfl
  rw [disconnect, Attribution.disconnected, if_pos armed]

theorem disconnect_idle (sound : c.Sound) (now : Nat) (live : List String)
    (idle : c.pending = none) :
    (c.disconnect now live).lost = c.lost ∧ (c.disconnect now live).pending =
        (if live = [] then none else some ⟨c.repairs.length, live, now + nodeRepairWindow⟩) ∧
      (c.disconnect now live).Sound := by
  have quiet : c.attribution.repair = none := by rw [sound, idle]; rfl
  have calm : ¬ c.attribution.repair.isSome = true := by rw [quiet]; decide
  rw [Sound, disconnect, Attribution.disconnected, if_neg calm]
  dsimp only
  rw [idle, quiet]
  refine ⟨rfl, rfl, ?_⟩
  split
  · rfl
  · rfl

theorem confirm_sound (sound : c.Sound) (origin : Origin) (channel : String) :
    (c.confirm origin channel).Sound := by
  rw [confirm]
  split
  · rw [Sound]
    dsimp only
    rcases replayed_cases c.attribution channel with ⟨same, _⟩ | ⟨cleared, _⟩
    · rw [same]
      split
      · rename_i none_
        rw [none_]
        rfl
      · exact sound
    · rw [if_pos cleared, cleared]
      rfl
  · exact sound

theorem tick_cases (sound : c.Sound) (now : Nat) :
    c.tick now = c ∧ (∀ loss, c.pending = some loss → now < loss.deadline) ∨
      ∃ loss, c.pending = some loss ∧ loss.deadline ≤ now ∧ (c.tick now).pending = none ∧
        (c.tick now).attribution.repair = none ∧ (c.tick now).lost = some .unexplained := by
  cases pending : c.pending with
  | none =>
      have quiet : c.attribution.repair = none := by rw [sound, pending]; rfl
      left
      rw [tick, Attribution.expired, quiet]
      exact ⟨rfl, fun _ none_ => by cases none_⟩
  | some loss =>
      have armed : c.attribution.repair = some loss.deadline := by rw [sound, pending]; rfl
      by_cases past : loss.deadline ≤ now
      · right
        refine ⟨loss, rfl, past, ?_⟩
        rw [tick, Attribution.expired, armed]
        dsimp only
        rw [if_pos past]
        exact ⟨rfl, rfl, rfl⟩
      · left
        rw [tick, Attribution.expired, armed]
        dsimp only
        rw [if_neg past]
        refine ⟨rfl, fun other same => ?_⟩
        cases same
        omega

theorem join_pending (index : Nat) (live : List String) :
    (c.join index live).attribution = c.attribution ∧ (c.join index live).lost = c.lost ∧
      ∀ loss, c.pending = some loss →
        ∃ still, (c.join index live).pending = some still ∧ loss.Same still := by
  rw [join]
  split
  · exact ⟨rfl, rfl, fun loss pending => ⟨loss, pending, rfl, rfl⟩⟩
  · refine ⟨rfl, rfl, fun loss pending => ?_⟩
    dsimp only
    rw [pending, Option.map_some]
    split
    · exact ⟨_, rfl, rfl, rfl⟩
    · exact ⟨_, rfl, rfl, rfl⟩

theorem join_sound (sound : c.Sound) (index : Nat) (live : List String) :
    (c.join index live).Sound := by
  rw [join]
  split
  · exact sound
  · rw [Sound] at sound ⊢
    dsimp only
    rw [sound]
    cases c.pending with
    | none => rfl
    | some loss =>
        simp only [Option.map_some]
        split
        · rfl
        · rfl

end Connection

theorem step_sound (c : Connection) (event : Event) (sound : c.Sound) : (c.step event).Sound := by
  unfold Connection.step
  split
  · exact sound
  · cases event with
    | disconnected now live =>
        cases pending : c.pending with
        | none => exact (Connection.disconnect_idle sound now live pending).2.2
        | some loss =>
            dsimp only
            rw [Connection.disconnect_pending sound pending]
            exact sound
    | moved channel => exact sound
    | joined index live => exact Connection.join_sound sound index live
    | confirmed origin channel => exact Connection.confirm_sound sound origin channel
    | tick now =>
        dsimp only
        rcases Connection.tick_cases sound now with ⟨same, _⟩ | ⟨_, _, _, none_, quiet, _⟩
        · rw [same]
          exact sound
        · rw [Connection.Sound, quiet, none_]
          rfl

theorem accounted_iff (c : Connection) (event : Event) (sound : c.Sound) (stands : c.lost = none) :
    Accounted c event (c.step event) ↔ Answers c event := by
  have steps : ¬ c.lost.isSome = true := by rw [stands]; decide
  unfold Connection.step
  rw [if_neg steps]
  cases event with
  | moved channel =>
      refine ⟨fun _ => trivial, fun _ =>
        ⟨fun _ _ other => (nomatch other), ?_, fun _ _ other => (nomatch other)⟩⟩
      exact fun loss pending => Or.inl ⟨loss, pending, rfl, rfl⟩
  | joined index live =>
      refine ⟨fun _ => trivial, fun _ =>
        ⟨fun _ _ other => (nomatch other), ?_, fun _ _ other => (nomatch other)⟩⟩
      exact fun loss pending => Or.inl ((Connection.join_pending index live).2.2 loss pending)
  | disconnected now live =>
      refine ⟨fun _ => trivial, fun _ => ?_⟩
      dsimp only
      cases pending : c.pending with
      | none =>
          obtain ⟨_, after, _⟩ := Connection.disconnect_idle sound now live pending
          refine ⟨fun at_ found same some_ => Or.inr ?_, ?_, fun _ _ other => (nomatch other)⟩
          · cases same
            rw [after, if_neg some_]
          · intro loss none_
            rw [pending] at none_
            cases none_
      | some loss =>
          rw [Connection.disconnect_pending sound pending]
          refine ⟨fun _ _ _ _ => Or.inl rfl, fun other same => ?_, fun _ _ other => (nomatch other)⟩
          exact Or.inl ⟨other, same, rfl, rfl⟩
  | tick now =>
      refine ⟨fun _ => trivial, fun _ => ?_⟩
      dsimp only
      rcases Connection.tick_cases sound now with ⟨same, early⟩ | ⟨loss, pending, past, _, _, lost⟩
      · rw [same]
        refine ⟨fun _ _ other => (nomatch other),
          fun loss pending => Or.inl ⟨loss, pending, rfl, rfl⟩,
          fun at_ loss ticks pending past => ?_⟩
        cases ticks
        have before := early loss pending
        omega
      · refine ⟨fun _ _ other => (nomatch other), fun other same => ?_, fun _ _ _ _ _ => lost⟩
        rw [pending, Option.some.injEq] at same
        subst same
        exact Or.inr (.unexplained past lost)
  | confirmed origin channel =>
      dsimp only
      constructor
      · intro accounted _ sent moved redialled loss pending
        have cleared : (c.confirm origin channel).pending = none := by
          rw [Connection.confirm, if_pos sent]
          rcases Connection.replayed_cases c.attribution channel with ⟨_, named⟩ | ⟨none_, _⟩
          · rcases named with held | held
            · exact absurd held moved
            · exact absurd held redialled
          · dsimp only
            rw [if_pos none_]
        rcases accounted.kept loss pending with ⟨still, found, _⟩ | ended
        · rw [cleared] at found
          cases found
        · cases ended with
          | answered held own => exact ⟨held, own⟩
      · intro answers
        refine ⟨fun _ _ other => (nomatch other), fun loss pending => ?_,
          fun _ _ other => (nomatch other)⟩
        by_cases sent : origin = .driver ∨ (origin, channel) ∈ c.outstanding
        · rcases Connection.replayed_cases c.attribution channel with
            ⟨same, _⟩ | ⟨_, moved, redialled⟩
          · left
            refine ⟨loss, ?_, rfl, rfl⟩
            have armed : (c.attribution.replayed channel).1.repair ≠ none := by
              rw [same, sound, pending]
              exact Option.some_ne_none _
            rw [Connection.confirm, if_pos sent]
            dsimp only
            rw [if_neg armed, pending]
          · obtain ⟨held, own⟩ := answers stands sent moved redialled loss pending
            exact Or.inr (.answered held own)
        · left
          rw [Connection.confirm, if_neg sent]
          exact ⟨loss, pending, rfl, rfl⟩

/-- A run forgets no loss exactly when every confirmation that could end one answers it. -/
theorem none_forgotten_iff (redialled : List String) (events : List Event) :
    NoneForgotten (Run.taken Connection.step (.new redialled) events) ↔
      Run.Meets Connection.step Answers (.new redialled) events := by
  have exact_step : ∀ (c : Connection) (event : Event), c.Sound →
      ((c.lost = none → Accounted c event (c.step event)) ↔ Answers c event) := by
    intro c event sound
    by_cases stands : c.lost = none
    · rw [← accounted_iff c event sound stands]
      exact ⟨fun accounts => accounts stands, fun accounted _ => accounted⟩
    · refine ⟨fun _ => ?_, fun _ fine_ => absurd fine_ stands⟩
      cases event with
      | confirmed origin channel => exact fun fine_ => absurd fine_ stands
      | disconnected now live => exact trivial
      | moved channel => exact trivial
      | joined index live => exact trivial
      | tick now => exact trivial
  exact Run.taken_iff_meets
    (P := fun t => t.before.lost = none → Accounted t.before t.event t.after) step_sound
    exact_step (Connection.new_sound redialled) events

/-- Two losses of one node, the second before every re-subscribe of the first is
confirmed. -/
def overlapping : List Event :=
  [.disconnected 0 ["a", "b"], .confirmed (.loss 0) "a", .disconnected 1 ["a", "b"],
    .confirmed (.loss 0) "b"]

/-- The connection as the second loss's window begins. -/
def overlapped : Connection := Run.final Connection.step (.new []) (overlapping.take 3)

theorem overlapped_sound : overlapped.Sound := rfl

/-- The confirmation that is still on its way ends the second loss. -/
theorem overlapping_forgets : ¬ ∀ redialled events,
    NoneForgotten (Run.taken Connection.step (.new redialled) events) := by
  intro all
  have last : (⟨overlapped, .confirmed (.loss 0) "b", overlapped.step (.confirmed (.loss 0) "b")⟩ :
      Taken) ∈ Run.taken Connection.step (.new []) overlapping :=
    List.mem_cons_of_mem _ (List.mem_cons_of_mem _ (List.mem_cons_of_mem _ List.mem_cons_self))
  have accounted := all [] overlapping _ last (by decide)
  have answers := (accounted_iff overlapped _ overlapped_sound (by decide)).mp accounted
  have own := answers (by decide) (by decide) (by decide) (by decide)
    ⟨1, ["a", "b"], 1 + nodeRepairWindow⟩ (by decide)
  exact own.2 0 (by decide) rfl

end Agentsfleet.Hub
