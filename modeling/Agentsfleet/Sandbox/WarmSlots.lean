import Agentsfleet.Library.Run
import Agentsfleet.Library.Table
import Agentsfleet.Supervisor.Holds

/-!
# Sandboxes started before their lease

One keeper owns the ready slots.  A start task offers its sandbox over a bounded
channel, a lease asks for one over another and reads the answer from a channel
of its own.  A slot the keeper answered with is in nobody's hand until it is
read: a caller that goes before then drops the sandbox without destroying it.
-/

set_option autoImplicit false

namespace Agentsfleet.Sandbox

open Agentsfleet.Library
open Agentsfleet.Supervisor (Limits)

inductive Network (Allowlist : Type) where
  | host
  | isolated
  | allowed (allowlist : Allowlist)
deriving DecidableEq, Repr

/-- A task of the keeper's join set: a start at one of its awaits, or a teardown. -/
inductive Work where
  | attempting
  | backingOff
  | offering (sandbox : Nat)
  | retiring (sandbox : Nat)
deriving DecidableEq, Repr

/-- One where the place holds sandbox `n`. -/
def mark (n : Nat) (place : Option Nat) : Nat := if place = some n then 1 else 0

namespace Work

/-- Whether the task has sandbox `n`, counted. -/
def holds (n : Nat) : Work → Nat
  | .offering m | .retiring m => mark n (some m)
  | .attempting | .backingOff => 0

/-- Whether the task is a start that has not handed its sandbox on, counted. -/
def starts : Work → Nat
  | .attempting | .backingOff | .offering _ => 1
  | .retiring _ => 0

def retires (n : Nat) : Work → Nat
  | .retiring m => mark n (some m)
  | .attempting | .backingOff | .offering _ => 0

end Work

/-- Where a lease's request is.  `sending` waits for room in the claims channel,
`waiting` for the keeper's answer; an `answered` one has yet to read it. -/
inductive Caller where
  | sending
  | waiting
  | answered (slot : Option Nat)
  | warm (sandbox : Nat)
  | cold
  | gone
deriving DecidableEq, Repr

namespace Caller

def unread (n : Nat) : Caller → Nat
  | .answered slot => mark n slot
  | _ => 0

def leased (n : Nat) : Caller → Nat
  | .warm m => mark n (some m)
  | _ => 0

def pending : Caller → Bool
  | .sending | .waiting | .answered _ => true
  | .warm _ | .cold | .gone => false

end Caller

/-- Where the keeper stands in `keep`. -/
inductive Keeper where
  | serving
  | searching (claim : Nat)
  | replying (claim : Nat) (slot : Option Nat)
  | draining (slot : Option Nat)
  | joining
  | stopped
deriving DecidableEq, Repr

namespace Keeper

def sandbox : Keeper → Option Nat
  | .replying _ slot | .draining slot => slot
  | .serving | .searching _ | .joining | .stopped => none

def closed : Keeper → Bool
  | .draining _ | .joining | .stopped => true
  | .serving | .searching _ | .replying _ _ => false

end Keeper

/-- The slots, their keeper and the leases asking for one.  Sandboxes are named
in the order the slot starts produced them, callers in the order they came;
`seenDead` records the slots `live_slot` found dead, `destroyed` those a teardown
took and `dropped` those whose owner went without one. -/
structure WarmSlots where
  limits : Limits
  slots : Nat
  handle : Bool
  requests : List Nat
  keeper : Keeper
  work : List Work
  waiting : List Nat
  callers : List Caller
  produced : Nat
  dead : List Nat
  seenDead : List Nat
  destroyed : List Nat
  dropped : List Nat
deriving DecidableEq, Repr

inductive SlotEvent (Allowlist : Type) where
  | prepare (limits : Limits) (network : Network Allowlist)
  | send (caller : Nat)
  | read (caller : Nat)
  /-- A caller's future is dropped before it has its sandbox in hand. -/
  | abandon (caller : Nat)
  | receive
  | search
  | reply
  | succeed (task : Nat)
  | fail (task : Nat)
  | wake (task : Nat)
  | offer (task : Nat)
  | tearDown (task : Nat)
  | die (sandbox : Nat)
  /-- Takes the slots by value, so no claim is under way. -/
  | shutdown
  | drain
  | join
deriving DecidableEq, Repr

namespace WarmSlots

variable {Allowlist : Type} [DecidableEq Allowlist]

def start (limits : Limits) (slots : Nat) : WarmSlots :=
  ⟨limits, slots, true, [], .serving, List.replicate slots .attempting, [], [], 0, [], [], [], []⟩

/-- The channel's room: `mpsc::channel(slots.max(1))`. -/
def capacity (s : WarmSlots) : Nat := max s.slots 1

/-- `prepare`: only a request for what every slot was built as claims one. -/
def prepare (s : WarmSlots) (limits : Limits) (network : Network Allowlist) : WarmSlots :=
  if s.handle then
    let caller := if limits = s.limits ∧ network = .isolated then Caller.sending else .cold
    { s with callers := s.callers ++ [caller] }
  else s

/-- The first half of `claim`: the channel holds one request. -/
def send (s : WarmSlots) (n : Nat) : WarmSlots :=
  match s.callers[n]? with
  | some .sending =>
      if s.requests.length < 1 then
        { s with callers := s.callers.set n .waiting, requests := s.requests ++ [n] }
      else s
  | _ => s

/-- The second half of `claim`: no slot means a cold start. -/
def read (s : WarmSlots) (n : Nat) : WarmSlots :=
  match s.callers[n]? with
  | some (.answered (some sandbox)) => { s with callers := s.callers.set n (.warm sandbox) }
  | some (.answered none) => { s with callers := s.callers.set n .cold }
  | _ => s

def abandon (s : WarmSlots) (n : Nat) : WarmSlots :=
  match s.callers[n]? with
  | some .sending | some .waiting => { s with callers := s.callers.set n .gone }
  | some (.answered slot) =>
      -- The answer goes with its channel, and a sandbox in it with the answer.
      { s with callers := s.callers.set n .gone, dropped := s.dropped ++ slot.toList }
  | _ => s

/-- `requests.recv`: a claim, or the end of them all, which closes the slots. -/
def receive (s : WarmSlots) : WarmSlots :=
  match s.keeper with
  | .serving =>
      match s.requests with
      | claim :: rest => { s with requests := rest, keeper := .searching claim }
      | [] => if s.handle then s else { s with keeper := .draining none }
  | _ => s

/-- One turn of the loop in `live_slot`: every slot taken is replaced. -/
def search (s : WarmSlots) : WarmSlots :=
  match s.keeper with
  | .searching claim =>
      match s.waiting with
      | [] => { s with keeper := .replying claim none }
      | n :: rest =>
          let s := { s with waiting := rest, work := s.work ++ [Work.attempting] }
          if n ∈ s.dead then
            { s with work := s.work ++ [Work.retiring n], seenDead := s.seenDead ++ [n] }
          else { s with keeper := .replying claim (some n) }
  | _ => s

/-- A slot whose lease stopped waiting comes back and is retired. -/
def reply (s : WarmSlots) : WarmSlots :=
  match s.keeper with
  | .replying claim slot =>
      let s := { s with keeper := .serving }
      if s.callers[claim]? = some .waiting then
        { s with callers := s.callers.set claim (.answered slot) }
      else { s with work := s.work ++ slot.toList.map Work.retiring }
  | _ => s

def succeed (s : WarmSlots) (task : Nat) : WarmSlots :=
  match s.work[task]? with
  | some .attempting =>
      { s with work := s.work.set task (.offering s.produced), produced := s.produced + 1 }
  | _ => s

def fail (s : WarmSlots) (task : Nat) : WarmSlots :=
  match s.work[task]? with
  | some .attempting =>
      if s.keeper.closed then { s with work := s.work.eraseIdx task }
      else { s with work := s.work.set task .backingOff }
  | _ => s

/-- `UntilClosed`: the wait is over, or the keeper closed; either way it tries again. -/
def wake (s : WarmSlots) (task : Nat) : WarmSlots :=
  match s.work[task]? with
  | some .backingOff => { s with work := s.work.set task .attempting }
  | _ => s

def offer (s : WarmSlots) (task : Nat) : WarmSlots :=
  match s.work[task]? with
  | some (.offering n) =>
      if s.keeper.closed then { s with work := s.work.set task (.retiring n) }
      else if s.waiting.length < s.capacity then
        { s with work := s.work.eraseIdx task, waiting := s.waiting ++ [n] }
      else s
  | _ => s

def tearDown (s : WarmSlots) (task : Nat) : WarmSlots :=
  match s.work[task]? with
  | some (.retiring n) =>
      { s with work := s.work.eraseIdx task, destroyed := s.destroyed ++ [n] }
  | _ => s

def shutdown (s : WarmSlots) : WarmSlots :=
  if s.callers.any Caller.pending then s else { s with handle := false }

/-- The keeper takes what is still ready and retires it, one slot at a time. -/
def drain (s : WarmSlots) : WarmSlots :=
  match s.keeper with
  | .draining (some n) => { s with keeper := .draining none, destroyed := s.destroyed ++ [n] }
  | .draining none =>
      match s.waiting with
      | n :: rest => { s with waiting := rest, keeper := .draining (some n) }
      | [] => { s with keeper := .joining }
  | _ => s

def join (s : WarmSlots) : WarmSlots :=
  if s.keeper = .joining ∧ s.work = [] then { s with keeper := .stopped } else s

def step (s : WarmSlots) : SlotEvent Allowlist → WarmSlots
  | .prepare limits network => s.prepare limits network
  | .send n => s.send n
  | .read n => s.read n
  | .abandon n => s.abandon n
  | .receive => s.receive
  | .search => s.search
  | .reply => s.reply
  | .succeed task => s.succeed task
  | .fail task => s.fail task
  | .wake task => s.wake task
  | .offer task => s.offer task
  | .tearDown task => s.tearDown task
  | .die n => { s with dead := s.dead ++ [n] }
  | .shutdown => s.shutdown
  | .drain => s.drain
  | .join => s.join

/-! ## Where a sandbox is -/

/-- The places sandbox `n` has on its way to a lease or to a teardown. -/
def inTransit (s : WarmSlots) (n : Nat) : Nat :=
  Table.weight (Work.holds n) s.work + s.waiting.count n +
    mark n s.keeper.sandbox + Table.weight (Caller.unread n) s.callers

/-- The leases that hold sandbox `n`. -/
def leases (s : WarmSlots) (n : Nat) : Nat :=
  Table.weight (Caller.leased n) s.callers

def starting (s : WarmSlots) : Nat :=
  Table.weight Work.starts s.work

/-- The teardowns of sandbox `n` in flight. -/
def retirements (s : WarmSlots) (n : Nat) : Nat :=
  Table.weight (Work.retires n) s.work

theorem mark_none (n : Nat) : mark n none = 0 := if_neg nofun

theorem count_arrived (n m : Nat) (places : List Nat) :
    (places ++ [m]).count n = places.count n + mark n (some m) := by
  rw [List.count_append, List.count_singleton, mark]
  by_cases same : m = n
  · simp [same]
  · simp [same]

theorem count_first (n m : Nat) (places : List Nat) :
    (m :: places).count n = places.count n + mark n (some m) := by
  rw [List.count_cons, mark]
  by_cases same : m = n
  · simp [same]
  · simp [same]

theorem count_toList (n : Nat) (place : Option Nat) : place.toList.count n = mark n place := by
  cases place with
  | none => rfl
  | some m => simpa using count_first n m []

theorem produced_next (n produced : Nat) :
    (if n < produced + 1 then 1 else 0) =
      (if n < produced then 1 else 0) + mark n (some produced) := by
  rw [mark]
  by_cases newest : produced = n
  · simp [newest]
  · have same : n < produced + 1 ↔ n < produced := by omega
    simp [newest, same]

structure Sound (s : WarmSlots) : Prop where
  accounted : ∀ n, s.inTransit n + s.leases n + s.destroyed.count n + s.dropped.count n =
    if n < s.produced then 1 else 0
  full : s.keeper.closed = false → s.starting + s.waiting.length = s.slots
  seen : ∀ n ∈ s.seenDead, 1 ≤ s.retirements n + s.destroyed.count n
  drained : s.keeper = .joining ∨ s.keeper = .stopped → s.waiting = []
  joined : s.keeper = .stopped → s.work = []
  borrowed : s.handle = false → ∀ caller ∈ s.callers, caller.pending = false
  ended : s.keeper.closed = true → s.handle = false

theorem sound_start (limits : Limits) (slots : Nat) : (start limits slots).Sound where
  accounted n := by
    simp only [inTransit, leases, start, Table.weight_replicate, Work.holds]
    rfl
  full _ := by
    simp only [starting, start, Table.weight_replicate]
    exact Nat.mul_one slots
  seen := nofun
  drained := nofun
  joined := nofun
  borrowed := nofun
  ended := nofun

namespace Sound

variable {s : WarmSlots}

theorem move (sound : s.Sound) {n : Nat} {caller : Caller} (found : s.callers[n]? = some caller)
    (next : Caller) (lost : List Nat) (requests : List Nat)
    (same : ∀ m, next.unread m + next.leased m + lost.count m =
      caller.unread m + caller.leased m)
    (pends : next.pending = true → caller.pending = true) :
    { s with
      callers := s.callers.set n next
      dropped := s.dropped ++ lost
      requests := requests }.Sound where
  accounted m := by
    have before := sound.accounted m
    have unread := Table.weight_set (Caller.unread m) found next
    have leased := Table.weight_set (Caller.leased m) found next
    have moved := same m
    simp only [inTransit, leases, List.count_append] at before ⊢
    omega
  full := sound.full
  seen := sound.seen
  drained := sound.drained
  joined := sound.joined
  borrowed gone other member := by
    rcases List.mem_or_eq_of_mem_set member with held | rfl
    · exact sound.borrowed gone other held
    · have before := sound.borrowed gone caller (List.mem_of_getElem? found)
      cases pending : other.pending with
      | false => rfl
      | true => rw [pends pending] at before; exact before
  ended := sound.ended

theorem prepare {Allowlist : Type} [DecidableEq Allowlist] (sound : s.Sound) (limits : Limits)
    (network : Network Allowlist) : (s.prepare limits network).Sound := by
  rw [WarmSlots.prepare]
  by_cases handle : s.handle = true
  · rw [if_pos handle]
    refine ⟨?_, sound.full, sound.seen, sound.drained, sound.joined, ?_, sound.ended⟩
    · intro n
      have before := sound.accounted n
      simp only [inTransit, leases, Table.weight_append, Table.weight_singleton] at before ⊢
      by_cases wanted : limits = s.limits ∧ network = .isolated
      · rw [if_pos wanted]
        simpa [Caller.unread, Caller.leased, mark_none] using before
      · rw [if_neg wanted]
        simpa [Caller.unread, Caller.leased, mark_none] using before
    · intro gone
      rw [handle] at gone
      exact absurd gone (by decide)
  · rw [if_neg handle]
    exact sound

theorem send (sound : s.Sound) (n : Nat) : (s.send n).Sound := by
  unfold WarmSlots.send
  split
  next found =>
    by_cases room : s.requests.length < 1
    · rw [if_pos room]
      simpa using sound.move found .waiting [] (s.requests ++ [n]) (fun _ => rfl) (fun _ => rfl)
    · rw [if_neg room]
      exact sound
  next => exact sound

theorem read (sound : s.Sound) (n : Nat) : (s.read n).Sound := by
  unfold WarmSlots.read
  split
  next sandbox found =>
    have moved := sound.move found (.warm sandbox) [] s.requests
      (fun m => by simp [Caller.unread, Caller.leased]) nofun
    simpa using moved
  next found =>
    simpa using sound.move found .cold [] s.requests (fun _ => rfl) nofun
  next => exact sound

theorem abandon (sound : s.Sound) (n : Nat) : (s.abandon n).Sound := by
  unfold WarmSlots.abandon
  split
  next found => simpa using sound.move found .gone [] s.requests (fun _ => rfl) nofun
  next found => simpa using sound.move found .gone [] s.requests (fun _ => rfl) nofun
  next slot found =>
    refine sound.move found .gone slot.toList s.requests ?_ nofun
    intro m
    simp [Caller.unread, Caller.leased, count_toList]
  next => exact sound

theorem receive (sound : s.Sound) : s.receive.Sound := by
  unfold WarmSlots.receive
  split
  next serving =>
    have open_still : s.keeper.closed = false := by rw [serving]; rfl
    have hand : ∀ n, mark n s.keeper.sandbox = 0 := by
      intro n
      rw [serving]
      exact mark_none n
    split
    next claim rest taken =>
      refine ⟨?_, fun _ => sound.full open_still, sound.seen, nofun, nofun, sound.borrowed, nofun⟩
      intro n
      have before := sound.accounted n
      rw [inTransit, hand] at before
      exact before
    next =>
      by_cases handle : s.handle = true
      · rw [if_pos handle]
        exact sound
      · rw [if_neg handle]
        refine ⟨?_, nofun, sound.seen, nofun, nofun, sound.borrowed,
          fun _ => Bool.eq_false_iff.mpr handle⟩
        intro n
        have before := sound.accounted n
        rw [inTransit, hand] at before
        exact before
  next => exact sound

theorem search (sound : s.Sound) : s.search.Sound := by
  unfold WarmSlots.search
  split
  next claim searching =>
    have serves : s.keeper.closed = false := by rw [searching]; rfl
    have hand : ∀ n, mark n s.keeper.sandbox = 0 := by
      intro n
      rw [searching]
      exact mark_none n
    have full := sound.full serves
    rw [starting] at full
    split
    next none_ready =>
      refine ⟨?_, fun _ => sound.full serves, sound.seen, nofun, nofun, sound.borrowed, nofun⟩
      intro n
      have before := sound.accounted n
      rw [inTransit, hand] at before
      exact before
    next first rest ready =>
      rw [ready, List.length_cons] at full
      have account : ∀ n, mark n (some first) + Table.weight (Work.holds n) s.work +
          rest.count n + Table.weight (Caller.unread n) s.callers +
          s.leases n + s.destroyed.count n + s.dropped.count n =
          if n < s.produced then 1 else 0 := by
        intro n
        have before := sound.accounted n
        rw [inTransit, hand, ready, count_first] at before
        omega
      by_cases dead : first ∈ s.dead
      · simp only [if_pos dead]
        refine ⟨?_, ?_, ?_, ?_, ?_, sound.borrowed, ?_⟩
        · intro n
          have before := account n
          simp only [inTransit, leases, hand, Table.weight_append, Table.weight_singleton,
            Work.holds] at before ⊢
          omega
        · intro _
          simp only [starting, Table.weight_append, Table.weight_singleton, Work.starts]
          omega
        · intro n found
          rw [List.mem_append, List.mem_singleton] at found
          simp only [retirements, Table.weight_append, Table.weight_singleton]
          rcases found with found | rfl
          · have before := sound.seen n found
            rw [retirements] at before
            omega
          · simp only [Work.retires, mark, if_true]
            omega
        · rw [searching]
          exact nofun
        · rw [searching]
          exact nofun
        · rw [searching]
          exact nofun
      · simp only [if_neg dead]
        refine ⟨?_, ?_, ?_, nofun, nofun, sound.borrowed, nofun⟩
        · intro n
          have before := account n
          simp only [inTransit, leases, Keeper.sandbox, Table.weight_append,
            Table.weight_singleton, Work.holds] at before ⊢
          omega
        · intro _
          simp only [starting, Table.weight_append, Table.weight_singleton, Work.starts]
          omega
        · intro n found
          have before := sound.seen n found
          rw [retirements] at before
          simp only [retirements, Table.weight_append]
          omega
  next => exact sound

theorem reply (sound : s.Sound) : s.reply.Sound := by
  unfold WarmSlots.reply
  split
  next claim slot replying =>
    have serves : s.keeper.closed = false := by rw [replying]; rfl
    have full := sound.full serves
    have account : ∀ n, mark n slot + Table.weight (Work.holds n) s.work +
        s.waiting.count n + Table.weight (Caller.unread n) s.callers +
        s.leases n + s.destroyed.count n + s.dropped.count n =
        if n < s.produced then 1 else 0 := by
      intro n
      have before := sound.accounted n
      rw [inTransit, replying, Keeper.sandbox] at before
      omega
    by_cases listens : s.callers[claim]? = some .waiting
    · simp only [if_pos listens]
      refine ⟨?_, fun _ => full, sound.seen, nofun, nofun, ?_, nofun⟩
      · intro n
        have before := account n
        have unread := Table.weight_set (Caller.unread n) listens
          (.answered slot)
        have leased := Table.weight_set (Caller.leased n) listens
          (.answered slot)
        simp only [Caller.unread, Caller.leased] at unread leased
        simp only [inTransit, leases, Keeper.sandbox, mark_none] at before ⊢
        omega
      · intro gone caller member
        have pending := sound.borrowed gone .waiting (List.mem_of_getElem? listens)
        exact absurd pending (by decide)
    · simp only [if_neg listens]
      refine ⟨?_, ?_, ?_, nofun, nofun, sound.borrowed, nofun⟩
      · intro n
        have before := account n
        cases slot with
        | none =>
            simp only [inTransit, leases, Keeper.sandbox, Option.toList_none, List.map_nil,
              List.append_nil, mark_none] at before ⊢
            omega
        | some m =>
            simp only [inTransit, leases, Keeper.sandbox, Option.toList_some, List.map_cons,
              List.map_nil, Table.weight_append, Table.weight_singleton, Work.holds,
              mark_none] at before ⊢
            omega
      · intro _
        cases slot with
        | none => simpa [starting] using full
        | some m => simpa [starting, Work.starts] using full
      · intro n found
        have before := sound.seen n found
        rw [retirements] at before
        simp only [retirements, Table.weight_append]
        omega
  next => exact sound

theorem proceed (sound : s.Sound) {task : Nat} {old : Work} (found : s.work[task]? = some old)
    (next : Work) (same : ∀ n, next.holds n = old.holds n)
    (starts : s.keeper.closed = false → next.starts = old.starts)
    (fresh : ∀ n, old.retires n = 0) : { s with work := s.work.set task next }.Sound where
  accounted n := by
    have before := sound.accounted n
    have held := Table.weight_set (Work.holds n) found next
    simp only [same] at held
    simp only [inTransit, leases] at before ⊢
    omega
  full serves := by
    have before := sound.full serves
    have counted := Table.weight_set Work.starts
      found next
    simp only [starts serves] at counted
    simp only [starting] at before ⊢
    omega
  seen n member := by
    have before := sound.seen n member
    have counted := Table.weight_set (Work.retires n)
      found next
    simp only [fresh n] at counted
    simp only [retirements] at before ⊢
    omega
  drained := sound.drained
  joined stopped := by
    rw [sound.joined stopped] at found
    simp at found
  borrowed := sound.borrowed
  ended := sound.ended

theorem succeed (sound : s.Sound) (task : Nat) : (s.succeed task).Sound := by
  unfold WarmSlots.succeed
  split
  next found =>
    refine ⟨?_, ?_, ?_, sound.drained, ?_, sound.borrowed, sound.ended⟩
    · intro n
      have before := sound.accounted n
      have held := Table.weight_set (Work.holds n) found (.offering s.produced)
      have next := produced_next n s.produced
      simp only [Work.holds] at held
      simp only [inTransit, leases] at before ⊢
      omega
    · intro serves
      have before := sound.full serves
      have counted := Table.weight_set Work.starts
        found (.offering s.produced)
      simp only [Work.starts] at counted
      simp only [starting] at before ⊢
      omega
    · intro n member
      have before := sound.seen n member
      have counted := Table.weight_set (Work.retires n)
        found (.offering s.produced)
      simp only [Work.retires] at counted
      simp only [retirements] at before ⊢
      omega
    · intro stopped
      rw [sound.joined stopped] at found
      simp at found
  next => exact sound

theorem fail (sound : s.Sound) (task : Nat) : (s.fail task).Sound := by
  unfold WarmSlots.fail
  split
  next found =>
    by_cases closed : s.keeper.closed = true
    · rw [if_pos closed]
      refine ⟨?_, ?_, ?_, sound.drained, ?_, sound.borrowed, sound.ended⟩
      · intro n
        have before := sound.accounted n
        have held := Table.weight_eraseIdx (Work.holds n) found
        simp only [Work.holds] at held
        simp only [inTransit, leases] at before ⊢
        omega
      · intro serves
        rw [closed] at serves
        exact absurd serves (by decide)
      · intro n member
        have before := sound.seen n member
        have counted := Table.weight_eraseIdx
          (Work.retires n) found
        simp only [Work.retires] at counted
        simp only [retirements] at before ⊢
        omega
      · intro stopped
        rw [sound.joined stopped] at found
        simp at found
    · rw [if_neg closed]
      exact sound.proceed found .backingOff (fun _ => rfl) (fun _ => rfl) (fun _ => rfl)
  next => exact sound

theorem wake (sound : s.Sound) (task : Nat) : (s.wake task).Sound := by
  unfold WarmSlots.wake
  split
  next found => exact sound.proceed found .attempting (fun _ => rfl) (fun _ => rfl) (fun _ => rfl)
  next => exact sound

theorem offer (sound : s.Sound) (task : Nat) : (s.offer task).Sound := by
  unfold WarmSlots.offer
  split
  next m found =>
    by_cases closed : s.keeper.closed = true
    · rw [if_pos closed]
      refine sound.proceed found (.retiring m) (fun _ => rfl) ?_ (fun _ => rfl)
      intro serves
      rw [closed] at serves
      exact absurd serves (by decide)
    · rw [if_neg closed]
      have serves := Bool.eq_false_iff.mpr closed
      by_cases room : s.waiting.length < s.capacity
      · rw [if_pos room]
        refine ⟨?_, ?_, ?_, ?_, ?_, sound.borrowed, sound.ended⟩
        · intro n
          have before := sound.accounted n
          have held := Table.weight_eraseIdx (Work.holds n) found
          simp only [Work.holds] at held
          simp only [inTransit, leases, count_arrived] at before ⊢
          omega
        · intro _
          have before := sound.full serves
          have counted := Table.weight_eraseIdx
            Work.starts found
          simp only [Work.starts] at counted
          simp only [starting, List.length_append, List.length_singleton] at before ⊢
          omega
        · intro n member
          have before := sound.seen n member
          have counted := Table.weight_eraseIdx
            (Work.retires n) found
          simp only [Work.retires] at counted
          simp only [retirements] at before ⊢
          omega
        · intro ended
          rcases ended with joining | stopped
          · rw [joining] at serves
            exact absurd serves (by decide)
          · rw [stopped] at serves
            exact absurd serves (by decide)
        · intro stopped
          rw [sound.joined stopped] at found
          simp at found
      · rw [if_neg room]
        exact sound
  next => exact sound

theorem tearDown (sound : s.Sound) (task : Nat) : (s.tearDown task).Sound := by
  unfold WarmSlots.tearDown
  split
  next m found =>
    refine ⟨?_, ?_, ?_, sound.drained, ?_, sound.borrowed, sound.ended⟩
    · intro n
      have before := sound.accounted n
      have held := Table.weight_eraseIdx (Work.holds n) found
      simp only [Work.holds] at held
      simp only [inTransit, leases, count_arrived] at before ⊢
      omega
    · intro serves
      have before := sound.full serves
      have counted := Table.weight_eraseIdx
        Work.starts found
      simp only [Work.starts] at counted
      simp only [starting] at before ⊢
      omega
    · intro n member
      have before := sound.seen n member
      have counted := Table.weight_eraseIdx
        (Work.retires n) found
      simp only [Work.retires] at counted
      simp only [retirements, count_arrived] at before ⊢
      omega
    · intro stopped
      rw [sound.joined stopped] at found
      simp at found
  next => exact sound

theorem shutdown (sound : s.Sound) : s.shutdown.Sound := by
  rw [WarmSlots.shutdown]
  by_cases pending : s.callers.any Caller.pending = true
  · rw [if_pos pending]
    exact sound
  · rw [if_neg pending]
    refine ⟨sound.accounted, sound.full, sound.seen, sound.drained, sound.joined, ?_,
      fun _ => rfl⟩
    intro _ caller member
    rw [List.any_eq_true] at pending
    exact Bool.eq_false_iff.mpr fun held => pending ⟨caller, member, held⟩

theorem drain (sound : s.Sound) : s.drain.Sound := by
  unfold WarmSlots.drain
  split
  next m draining =>
    have closed := sound.ended (by rw [draining]; rfl)
    refine ⟨?_, nofun, ?_, nofun, nofun, sound.borrowed, fun _ => closed⟩
    · intro n
      have before := sound.accounted n
      rw [inTransit, draining] at before
      simp only [inTransit, leases, Keeper.sandbox, mark_none, count_arrived] at before ⊢
      omega
    · intro n member
      have before := sound.seen n member
      simp only [retirements, count_arrived] at before ⊢
      omega
  next draining =>
    have closed := sound.ended (by rw [draining]; rfl)
    split
    next m rest ready =>
      refine ⟨?_, nofun, sound.seen, nofun, nofun, sound.borrowed, fun _ => closed⟩
      intro n
      have before := sound.accounted n
      rw [inTransit, draining, ready, count_first] at before
      simp only [inTransit, leases, Keeper.sandbox, mark_none] at before ⊢
      omega
    next none_ready =>
      refine ⟨?_, nofun, sound.seen, fun _ => none_ready, nofun, sound.borrowed,
        fun _ => closed⟩
      intro n
      have before := sound.accounted n
      rw [inTransit, draining] at before
      simp only [inTransit, leases, Keeper.sandbox, mark_none] at before ⊢
      omega
  next => exact sound

theorem join (sound : s.Sound) : s.join.Sound := by
  rw [WarmSlots.join]
  by_cases finished : s.keeper = .joining ∧ s.work = []
  · rw [if_pos finished]
    have closed := sound.ended (by rw [finished.1]; rfl)
    refine ⟨?_, nofun, sound.seen, fun _ => sound.drained (.inl finished.1),
      fun _ => finished.2, sound.borrowed, fun _ => closed⟩
    intro n
    have before := sound.accounted n
    rw [inTransit, finished.1] at before
    exact before
  · rw [if_neg finished]
    exact sound

theorem step {Allowlist : Type} [DecidableEq Allowlist] (sound : s.Sound)
    (event : SlotEvent Allowlist) : (s.step event).Sound := by
  cases event with
  | prepare limits network => exact sound.prepare limits network
  | send n => exact sound.send n
  | read n => exact sound.read n
  | abandon n => exact sound.abandon n
  | receive => exact sound.receive
  | search => exact sound.search
  | reply => exact sound.reply
  | succeed task => exact sound.succeed task
  | fail task => exact sound.fail task
  | wake task => exact sound.wake task
  | offer task => exact sound.offer task
  | tearDown task => exact sound.tearDown task
  | die n =>
      exact ⟨sound.accounted, sound.full, sound.seen, sound.drained, sound.joined,
        sound.borrowed, sound.ended⟩
  | shutdown => exact sound.shutdown
  | drain => exact sound.drain
  | join => exact sound.join

end Sound

/-! ## Shutdown comes to an end -/

/-- How far a task is from its end once the keeper has closed. -/
def workLeft : Work → Nat
  | .backingOff => 4
  | .attempting => 3
  | .offering _ => 2
  | .retiring _ => 1

def keeperLeft : Keeper → Nat
  | .draining (some _) => 3
  | .draining none => 2
  | .joining => 1
  | _ => 0

def remaining (s : WarmSlots) : Nat :=
  Table.weight workLeft s.work + 2 * s.waiting.length + keeperLeft s.keeper

theorem remaining_step (s : WarmSlots) (closed : s.keeper.closed = true)
    (event : SlotEvent Allowlist) : (s.step event).remaining ≤ s.remaining := by
  have erased {task : Nat} {held : Work} (found : s.work[task]? = some held) :=
    Table.weight_eraseIdx workLeft found
  have changed {task : Nat} {held : Work} (found : s.work[task]? = some held) (next : Work) :=
    Table.weight_set workLeft found next
  cases event with
  | prepare limits network =>
      simp only [step, prepare]
      split
      · exact Nat.le_refl _
      · exact Nat.le_refl _
  | send n =>
      simp only [step, send]
      split
      · split
        · exact Nat.le_refl _
        · exact Nat.le_refl _
      · exact Nat.le_refl _
  | read n =>
      simp only [step, read]
      split
      · exact Nat.le_refl _
      · exact Nat.le_refl _
      · exact Nat.le_refl _
  | abandon n =>
      simp only [step, abandon]
      split
      · exact Nat.le_refl _
      · exact Nat.le_refl _
      · exact Nat.le_refl _
      · exact Nat.le_refl _
  | receive =>
      cases phase : s.keeper with
      | serving => rw [phase] at closed; exact nomatch closed
      | searching claim => simp [step, receive, phase]
      | replying claim slot => simp [step, receive, phase]
      | draining slot => simp [step, receive, phase]
      | joining => simp [step, receive, phase]
      | stopped => simp [step, receive, phase]
  | search =>
      cases phase : s.keeper with
      | searching claim => rw [phase] at closed; exact nomatch closed
      | serving => simp [step, search, phase]
      | replying claim slot => simp [step, search, phase]
      | draining slot => simp [step, search, phase]
      | joining => simp [step, search, phase]
      | stopped => simp [step, search, phase]
  | reply =>
      cases phase : s.keeper with
      | replying claim slot => rw [phase] at closed; exact nomatch closed
      | serving => simp [step, reply, phase]
      | searching claim => simp [step, reply, phase]
      | draining slot => simp [step, reply, phase]
      | joining => simp [step, reply, phase]
      | stopped => simp [step, reply, phase]
  | succeed task =>
      simp only [step, succeed]
      split
      next found =>
        have moved := changed found (.offering s.produced)
        simp only [workLeft] at moved
        simp only [remaining]
        omega
      next => exact Nat.le_refl _
  | fail task =>
      simp only [step, fail, if_pos closed]
      split
      next found =>
        have gone := erased found
        simp only [remaining]
        omega
      next => exact Nat.le_refl _
  | wake task =>
      simp only [step, wake]
      split
      next found =>
        have moved := changed found .attempting
        simp only [workLeft] at moved
        simp only [remaining]
        omega
      next => exact Nat.le_refl _
  | offer task =>
      simp only [step, offer, if_pos closed]
      split
      next n found =>
        have moved := changed found (.retiring n)
        simp only [workLeft] at moved
        simp only [remaining]
        omega
      next => exact Nat.le_refl _
  | tearDown task =>
      simp only [step, tearDown]
      split
      next n found =>
        have gone := erased found
        simp only [remaining]
        omega
      next => exact Nat.le_refl _
  | die n => exact Nat.le_refl _
  | shutdown =>
      simp only [step, shutdown]
      split
      · exact Nat.le_refl _
      · exact Nat.le_refl _
  | drain =>
      simp only [step, drain]
      split
      next n draining =>
        simp only [remaining, draining, keeperLeft]
        omega
      next draining =>
        split
        next n rest ready =>
          simp only [remaining, draining, ready, keeperLeft, List.length_cons]
          omega
        next ready =>
          simp only [remaining, draining, keeperLeft]
          omega
      next => exact Nat.le_refl _
  | join =>
      simp only [step, join]
      split
      next finished =>
        simp only [remaining, finished.1, keeperLeft]
        omega
      next => exact Nat.le_refl _

theorem closing_advances (s : WarmSlots) (closed : s.keeper.closed = true)
    (running : s.keeper ≠ .stopped) :
    ∃ event : SlotEvent Allowlist, (s.step event).remaining < s.remaining := by
  cases phase : s.keeper with
  | serving => rw [phase] at closed; exact nomatch closed
  | searching claim => rw [phase] at closed; exact nomatch closed
  | replying claim slot => rw [phase] at closed; exact nomatch closed
  | stopped => exact absurd phase running
  | draining slot =>
      refine ⟨.drain, ?_⟩
      cases slot with
      | some n =>
          simp only [step, drain, phase, remaining, keeperLeft]
          omega
      | none =>
          cases ready : s.waiting with
          | nil =>
              simp only [step, drain, phase, ready, remaining, keeperLeft]
              omega
          | cons n rest =>
              simp only [step, drain, phase, ready, remaining, keeperLeft, List.length_cons]
              omega
  | joining =>
      cases tasks : s.work with
      | nil =>
          refine ⟨.join, ?_⟩
          simp only [step, join, phase, tasks, remaining, keeperLeft, and_self, if_true]
          omega
      | cons task rest =>
          have first : s.work[0]? = some task := by rw [tasks]; rfl
          have erased := Table.weight_eraseIdx workLeft first
          have changed := Table.weight_set workLeft first
          cases task with
          | attempting =>
              refine ⟨.fail 0, ?_⟩
              simp only [step, fail, first, if_pos closed, remaining]
              simp only [workLeft] at erased
              omega
          | backingOff =>
              refine ⟨.wake 0, ?_⟩
              have moved := changed .attempting
              simp only [workLeft] at moved
              simp only [step, wake, first, remaining]
              omega
          | offering n =>
              refine ⟨.offer 0, ?_⟩
              have moved := changed (.retiring n)
              simp only [workLeft] at moved
              simp only [step, offer, first, if_pos closed, remaining]
              omega
          | retiring n =>
              refine ⟨.tearDown 0, ?_⟩
              simp only [step, tearDown, first, remaining]
              simp only [workLeft] at erased
              omega

/-! ## What is kept -/

def Heard (s : WarmSlots) : SlotEvent Allowlist → Prop
  | .abandon n => ∀ sandbox, s.callers[n]? ≠ some (.answered (some sandbox))
  | _ => True

structure Kept (Allowlist : Type) [DecidableEq Allowlist] (s : WarmSlots) : Prop where
  /-- A sandbox a start produced is in one place: on its way, one lease's, or destroyed. -/
  accounted : ∀ n, s.inTransit n + s.leases n + s.destroyed.count n =
    if n < s.produced then 1 else 0
  living : ∀ n ∈ s.seenDead, s.leases n = 0
  full : s.keeper = .serving → s.starting + s.waiting.length = s.slots
  ended : s.keeper = .stopped → ∀ n, s.inTransit n = 0
  /-- A shutdown neither blocks nor goes on for ever. -/
  ends : s.keeper.closed = true →
    (∀ event : SlotEvent Allowlist, (s.step event).remaining ≤ s.remaining) ∧
      (s.keeper ≠ .stopped →
        ∃ event : SlotEvent Allowlist, (s.step event).remaining < s.remaining)

theorem Sound.kept_iff {s : WarmSlots} (sound : s.Sound) :
    s.Kept Allowlist ↔ s.dropped = [] := by
  constructor
  · intro kept
    rw [List.eq_nil_iff_forall_not_mem]
    intro n member
    have all := sound.accounted n
    have without := kept.accounted n
    have counted := List.count_pos_iff.mpr member
    omega
  · intro none_dropped
    have accounted : ∀ n, s.inTransit n + s.leases n + s.destroyed.count n =
        if n < s.produced then 1 else 0 := by
      intro n
      have all := sound.accounted n
      rwa [none_dropped, List.count_nil, Nat.add_zero] at all
    refine ⟨accounted, ?_, ?_, ?_, ?_⟩
    · intro n found
      have one := accounted n
      have retired := sound.seen n found
      have inside : s.retirements n ≤ s.inTransit n := by
        rw [retirements, inTransit]
        have smaller : Table.weight (Work.retires n) s.work ≤
            Table.weight (Work.holds n) s.work := by
          refine Table.weight_le _ ?_
          intro task _
          cases task with
          | attempting => exact Nat.le_refl _
          | backingOff => exact Nat.le_refl _
          | offering m => exact Nat.zero_le _
          | retiring m => exact Nat.le_refl _
        omega
      have bound : (if n < s.produced then 1 else 0) ≤ 1 := by
        split <;> omega
      omega
    · intro serving
      exact sound.full (by rw [serving]; rfl)
    · intro stopped n
      have gone := sound.ended (by rw [stopped]; rfl)
      have none_unread : Table.weight (Caller.unread n) s.callers = 0 := by
        refine Table.weight_eq_zero _ ?_
        intro caller held
        have idle := sound.borrowed gone caller held
        cases caller with
        | answered slot => exact absurd idle nofun
        | _ => rfl
      rw [inTransit, sound.joined stopped, sound.drained (.inr stopped), stopped, none_unread]
      exact mark_none n
    · intro closed
      exact ⟨s.remaining_step closed, s.closing_advances closed⟩

theorem step_dropped (s : WarmSlots) (event : SlotEvent Allowlist) :
    (s.step event).dropped = [] ↔ s.dropped = [] ∧ s.Heard event := by
  have kept (next : WarmSlots) (same : next.dropped = s.dropped) :
      next.dropped = [] ↔ s.dropped = [] ∧ True := by rw [same, and_true]
  cases event with
  | abandon n =>
      simp only [step, abandon, Heard]
      cases found : s.callers[n]? with
      | none => simp
      | some caller =>
          cases caller with
          | answered slot =>
              cases slot with
              | none => simp
              | some sandbox => simp
          | sending => simp
          | waiting => simp
          | warm sandbox => simp
          | cold => simp
          | gone => simp
  | prepare limits network =>
      refine kept (s.prepare limits network) ?_
      rw [prepare]
      split
      · rfl
      · rfl
  | send n =>
      refine kept (s.send n) ?_
      rw [send]
      split
      · split
        · rfl
        · rfl
      · rfl
  | read n =>
      refine kept (s.read n) ?_
      rw [read]
      split
      · rfl
      · rfl
      · rfl
  | receive =>
      refine kept s.receive ?_
      rw [receive]
      split
      · split
        · rfl
        · split
          · rfl
          · rfl
      · rfl
  | search =>
      refine kept s.search ?_
      rw [search]
      split
      · split
        · rfl
        · dsimp only
          split
          · rfl
          · rfl
      · rfl
  | reply =>
      refine kept s.reply ?_
      rw [reply]
      split
      · dsimp only
        split
        · rfl
        · rfl
      · rfl
  | succeed task =>
      refine kept (s.succeed task) ?_
      rw [succeed]
      split
      · rfl
      · rfl
  | fail task =>
      refine kept (s.fail task) ?_
      rw [fail]
      split
      · split
        · rfl
        · rfl
      · rfl
  | wake task =>
      refine kept (s.wake task) ?_
      rw [wake]
      split
      · rfl
      · rfl
  | offer task =>
      refine kept (s.offer task) ?_
      rw [offer]
      split
      · split
        · rfl
        · split
          · rfl
          · rfl
      · rfl
  | tearDown task =>
      refine kept (s.tearDown task) ?_
      rw [tearDown]
      split
      · rfl
      · rfl
  | die n => exact kept _ rfl
  | shutdown =>
      refine kept s.shutdown ?_
      rw [shutdown]
      split
      · rfl
      · rfl
  | drain =>
      refine kept s.drain ?_
      rw [drain]
      split
      · rfl
      · split
        · rfl
        · rfl
      · rfl
  | join =>
      refine kept s.join ?_
      rw [join]
      split
      · rfl
      · rfl

/-- A run keeps every sandbox accounted for exactly when no caller goes between
the keeper's answer and its reading of a slot. -/
theorem slots_kept_iff {Allowlist : Type} [DecidableEq Allowlist] (limits : Limits) (slots : Nat)
    (events : List (SlotEvent Allowlist)) :
    (∀ reached ∈ Run.states step (start limits slots) events, reached.Kept Allowlist) ↔
      Run.Meets step Heard (start limits slots) events := by
  have first := sound_start limits slots
  refine Run.invariant_iff_meets_of_sound ?_ first (first.kept_iff.mpr rfl)
  intro s event sound kept
  refine ⟨sound.step event, ?_⟩
  rw [(sound.step event).kept_iff, step_dropped, sound.kept_iff.mp kept]
  simp

/-- A slot's start, its lease's claim, the keeper's answer, and the caller gone
before it read it. -/
def unreadRun : List (SlotEvent Empty) :=
  [.succeed 0, .offer 0, .prepare ⟨1, 1, 1, 1⟩ .isolated, .send 0, .receive, .search, .reply,
    .abandon 0]

/-- The run leaves sandbox zero with nobody: not on its way, not leased, not destroyed. -/
theorem unread_slot_lost :
    ¬ ∀ reached ∈ Run.states step (start ⟨1, 1, 1, 1⟩ 1) unreadRun, reached.Kept Empty := by
  intro always
  have kept := always _ (Run.final_mem_states step (start ⟨1, 1, 1, 1⟩ 1) unreadRun)
  have zero := kept.accounted 0
  exact absurd zero (by decide)

end WarmSlots

end Agentsfleet.Sandbox
