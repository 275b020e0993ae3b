import Agentsfleet.Library.Run
import Mathlib.Data.List.Perm.Basic

/-!
# Sandboxes held between leases

The task that owns every hold takes one request at a time, expiring first what
has lapsed.  A sandbox is named by the park that brought it, counted from zero;
whether a reply still finds its reader is part of the request.
-/

set_option autoImplicit false

namespace Agentsfleet.Supervisor

open Agentsfleet.Library

def sandboxHoldIdle : Int := 10 * 60 * 1000000000
def timestampMax : Int := 253402207200999999999

/-- `clock::after`. -/
def after (instant span : Int) : Int := min (instant + span) timestampMax

/-- `clock::elapsed`: zero when `then` is not earlier. -/
def elapsed (earlier now : Int) : Int := max 0 (now - earlier)

structure Limits where
  memoryBytes : Nat
  cpuMillis : Nat
  pids : Nat
  diskBytes : Nat
deriving DecidableEq, Repr

/-- What a held sandbox must match to serve a lease. -/
structure HoldKey (Policy : Type) where
  fleet : String
  workspace : String
  limits : Limits
  policy : Policy
deriving DecidableEq

/-- Why a hold ended without its fleet's next lease taking it. -/
inductive Release where
  | expired
  | saturated
  | capped
  | mismatch
  | inactive
  | shutdown
  | thawFailed
  | superseded
deriving DecidableEq, Repr

/-- One held sandbox, oldest first in `Keeper.held`. -/
structure Entry (Policy : Type) where
  key : HoldKey Policy
  lease : String
  sandbox : Nat
  since : Int
  until_ : Int

structure Taken where
  sandbox : Nat
  held : Int

inductive Parked where
  | held (until_ : Int)
  | refused (sandbox : Nat)

/-- How a parked sandbox leaves the keeper; a refused one is handed back where
its lease still waits, and torn down where nobody does. -/
inductive Departure where
  | taken
  | destroyed (reason : Release)
  | refused (heard : Bool)
deriving DecidableEq, Repr

/-- The keeper.  `arrived` counts the parks and `left` records every departure;
`rung` counts what `saturated` was notified. -/
structure Keeper (Policy : Type) where
  held : List (Entry Policy)
  workers : Nat
  busy : Nat
  closed : Bool
  destroying : List Nat
  rung : Nat
  stopped : Bool
  arrived : Nat
  left : List (Nat × Departure)

inductive HoldRequest (Policy : Type) where
  | take (key : HoldKey Policy) (heard : Bool)
  | park (key : HoldKey Policy) (lease : String) (heard : Bool)
  | release (fleet : String) (reason : Release)
  | supersede (lease : String)
  | discard (sandbox : Nat)
  | occupy (fleet : String)
  | vacate
  | resize (workers : Nat)
  | fleets
  | close
  | shutdown

/-- Whether a request may take sandboxes for room. -/
def HoldRequest.caps {Policy : Type} : HoldRequest Policy → Bool
  | .park .. | .resize _ => true
  | _ => false

namespace Keeper

variable {Policy : Type}

def new : Keeper Policy := ⟨[], 0, 0, false, [], 0, false, 0, []⟩

/-- `destroy`: the sandbox is torn down off this task. -/
def destroy (s : Keeper Policy) (sandbox : Nat) : Keeper Policy :=
  { s with destroying := s.destroying ++ [sandbox] }

def leave (s : Keeper Policy) (sandbox : Nat) (how : Departure) : Keeper Policy :=
  { s with left := s.left ++ [(sandbox, how)] }

def retire (s : Keeper Policy) (reason : Release) (entry : Entry Policy) : Keeper Policy :=
  (s.destroy entry.sandbox).leave entry.sandbox (.destroyed reason)

def retireAll (s : Keeper Policy) (reason : Release) (entries : List (Entry Policy)) :
    Keeper Policy :=
  entries.foldl (fun s entry => s.retire reason entry) s

def retireWhere (s : Keeper Policy) (gone : Entry Policy → Bool) (reason : Release) :
    Keeper Policy :=
  { s with held := s.held.filter fun entry => !gone entry }.retireAll reason (s.held.filter gone)

/-- Releases the oldest holds until at most `keep` remain. -/
def cap (s : Keeper Policy) (keep : Nat) : Keeper Policy :=
  let many := s.held.length - keep
  { s with held := s.held.drop many }.retireAll .capped (s.held.take many)

/-- Whether an entry is a fleet's, for `position`. -/
def ofFleet (fleet : String) (entry : Entry Policy) : Bool := decide (entry.key.fleet = fleet)

/-- The hold of a fleet, for `reason`; its teardown is under way after. -/
def release (s : Keeper Policy) (fleet : String) (reason : Release) : Keeper Policy :=
  match s.held.find? (ofFleet fleet) with
  | none => s
  | some entry => { s with held := s.held.eraseP (ofFleet fleet) }.retire reason entry

/-- Ends the hold `lease` parked. -/
def supersede (s : Keeper Policy) (lease : String) : Keeper Policy :=
  let parkedBy := fun entry : Entry Policy => decide (entry.lease = lease)
  match s.held.find? parkedBy with
  | none => s
  | some entry => { s with held := s.held.eraseP parkedBy }.retire .superseded entry

def expire (s : Keeper Policy) (now : Int) : Keeper Policy :=
  s.retireWhere (fun entry => decide (entry.until_ ≤ now)) .expired

/-- Hands out the fleet's hold when the rest of `key` matches it, and destroys
it when it does not. -/
def take [DecidableEq Policy] (s : Keeper Policy) (key : HoldKey Policy) (now : Int) :
    Keeper Policy × Option Taken :=
  match s.held.find? (ofFleet key.fleet) with
  | none => (s, none)
  | some entry =>
      let s := { s with held := s.held.eraseP (ofFleet key.fleet) }
      if entry.key ≠ key then (s.retire .mismatch entry, none)
      else (s, some ⟨entry.sandbox, elapsed entry.since now⟩)

/-- Holds `sandbox` for its fleet until the idle window lapses, after making
room. -/
def park (s : Keeper Policy) (key : HoldKey Policy) (lease : String) (sandbox : Nat) (now : Int) :
    Keeper Policy × Parked :=
  if s.closed then (s, .refused sandbox)
  else
    let s := s.release key.fleet .superseded
    match s.workers with
    | 0 => (s, .refused sandbox)
    | room + 1 =>
        let s := s.cap room
        let lapse := after now sandboxHoldIdle
        ({ s with held := s.held ++ [⟨key, lease, sandbox, now, lapse⟩] }, .held lapse)

/-- Counts a busy worker; the one that leaves none free releases every hold but
its own fleet's, and says so at once. -/
def occupy (s : Keeper Policy) (fleet : String) : Keeper Policy :=
  let s := { s with busy := s.busy + 1 }
  if s.busy < s.workers then s
  else
    let next := s.retireWhere (fun entry => !ofFleet fleet entry) .saturated
    if next.held.length < s.held.length then { next with rung := next.rung + 1 } else next

def close (s : Keeper Policy) : Keeper Policy :=
  { s with closed := true }.retireWhere (fun _ => true) .shutdown

/-- Ends every hold and waits for each teardown in flight. -/
def finish (s : Keeper Policy) : Keeper Policy := { s.close with destroying := [] }

def answerTake (s : Keeper Policy) (heard : Bool) : Option Taken → Keeper Policy
  | none => s
  | some taken =>
      if heard then s.leave taken.sandbox .taken
      else (s.destroy taken.sandbox).leave taken.sandbox (.destroyed .superseded)

def answerPark (s : Keeper Policy) (fleet : String) (heard : Bool) : Parked → Keeper Policy
  | .refused sandbox =>
      if heard then s.leave sandbox (.refused true)
      else (s.destroy sandbox).leave sandbox (.refused false)
  | .held _ => if heard then s else s.release fleet .superseded

def step [DecidableEq Policy] (s : Keeper Policy) (event : Int × HoldRequest Policy) :
    Keeper Policy :=
  if s.stopped then s
  else
    let now := event.1
    let s := s.expire now
    match event.2 with
    | .take key heard => (s.take key now).1.answerTake heard (s.take key now).2
    | .park key lease heard =>
        let sandbox := s.arrived
        let s := { s with arrived := sandbox + 1 }
        (s.park key lease sandbox now).1.answerPark key.fleet heard
          (s.park key lease sandbox now).2
    | .release fleet reason => s.release fleet reason
    | .supersede lease => s.supersede lease
    | .discard sandbox => s.destroy sandbox
    | .occupy fleet => s.occupy fleet
    | .vacate => { s with busy := s.busy - 1 }
    | .resize workers => { s with workers := workers }.cap workers
    | .fleets => s
    | .close => s.close
    | .shutdown => { s.finish with stopped := true }

/-! ## What each operation takes from the holds -/

/-- The entries in `gone` left, each as `how` says, and the rest stayed. -/
structure Removes (s next : Keeper Policy) (gone : List (Entry Policy)) (how : Departure) :
    Prop where
  kept : next.held.Sublist s.held
  moved : (gone ++ next.held).Perm s.held
  left : next.left = s.left ++ gone.map fun entry => (entry.sandbox, how)
  same : next.workers = s.workers ∧ next.arrived = s.arrived ∧ next.closed = s.closed ∧
    next.stopped = s.stopped

theorem Removes.refl (s : Keeper Policy) (how : Departure) : s.Removes s [] how :=
  ⟨List.Sublist.refl _, List.Perm.refl _, (List.append_nil _).symm, rfl, rfl, rfl, rfl⟩

theorem retireAll_eq (s : Keeper Policy) (reason : Release) (entries : List (Entry Policy)) :
    s.retireAll reason entries =
      { s with
        destroying := s.destroying ++ entries.map Entry.sandbox
        left := s.left ++ entries.map fun entry => (entry.sandbox, .destroyed reason) } := by
  induction entries generalizing s with
  | nil => simp [retireAll]
  | cons entry rest ih =>
      rw [retireAll, List.foldl_cons]
      have tail := ih (s.retire reason entry)
      rw [retireAll] at tail
      rw [tail]
      simp [retire, destroy, leave]

theorem retireWhere_removes (s : Keeper Policy) (gone : Entry Policy → Bool) (reason : Release) :
    s.Removes (s.retireWhere gone reason) (s.held.filter gone) (.destroyed reason) := by
  rw [retireWhere, retireAll_eq]
  exact ⟨List.filter_sublist, List.filter_append_perm gone s.held, rfl, rfl, rfl, rfl, rfl⟩

theorem cap_removes (s : Keeper Policy) (keep : Nat) :
    s.Removes (s.cap keep) (s.held.take (s.held.length - keep)) (.destroyed .capped) := by
  rw [cap, retireAll_eq]
  refine ⟨List.drop_sublist _ _, ?_, rfl, rfl, rfl, rfl, rfl⟩
  rw [List.take_append_drop]

theorem cap_held (s : Keeper Policy) (keep : Nat) :
    (s.cap keep).held = s.held.drop (s.held.length - keep) := by
  rw [cap, retireAll_eq]

theorem eraseP_perm {matching : Entry Policy → Bool} {held : List (Entry Policy)}
    {entry : Entry Policy} (found : held.find? matching = some entry) :
    (entry :: held.eraseP matching).Perm held := by
  induction held with
  | nil => simp at found
  | cons first rest ih =>
      by_cases here : matching first = true
      · rw [List.find?_cons_of_pos here, Option.some.injEq] at found
        rw [List.eraseP_cons_of_pos here, found]
      · rw [List.find?_cons_of_neg here] at found
        rw [List.eraseP_cons_of_neg here]
        exact (List.Perm.swap first entry _).trans ((ih found).cons first)

theorem retire_removes (s : Keeper Policy) {matching : Entry Policy → Bool} {entry : Entry Policy}
    (reason : Release) (found : s.held.find? matching = some entry) :
    s.Removes ({ s with held := s.held.eraseP matching }.retire reason entry) [entry]
      (.destroyed reason) :=
  ⟨List.eraseP_sublist, eraseP_perm found, rfl, rfl, rfl, rfl, rfl⟩

theorem release_removes (s : Keeper Policy) (fleet : String) (reason : Release) :
    ∃ gone, s.Removes (s.release fleet reason) gone (.destroyed reason) := by
  unfold release
  cases found : s.held.find? (ofFleet fleet) with
  | none => exact ⟨[], Removes.refl s _⟩
  | some entry => exact ⟨[entry], s.retire_removes reason found⟩

theorem supersede_removes (s : Keeper Policy) (lease : String) :
    ∃ gone, s.Removes (s.supersede lease) gone (.destroyed .superseded) := by
  unfold supersede
  simp only
  cases found : s.held.find? fun entry => decide (entry.lease = lease) with
  | none => exact ⟨[], Removes.refl s _⟩
  | some entry => exact ⟨[entry], s.retire_removes .superseded found⟩

theorem occupy_removes (s : Keeper Policy) (fleet : String) :
    ∃ gone, s.Removes (s.occupy fleet) gone (.destroyed .saturated) := by
  unfold occupy
  simp only
  by_cases free : s.busy + 1 < s.workers
  · rw [if_pos free]
    exact ⟨[], List.Sublist.refl _, List.Perm.refl _, (List.append_nil _).symm, rfl, rfl, rfl, rfl⟩
  · rw [if_neg free]
    obtain ⟨kept, moved, left, same⟩ := { s with busy := s.busy + 1 }.retireWhere_removes
      (fun entry => !ofFleet fleet entry) .saturated
    refine ⟨s.held.filter fun entry => !ofFleet fleet entry, ?_⟩
    split
    · exact ⟨kept, moved, left, same⟩
    · exact ⟨kept, moved, left, same⟩

/-! ## Invariants -/

/-- What every step keeps, `hand` being what the task holds on its way. -/
structure Sound (s : Keeper Policy) (hand : List Nat) : Prop where
  fleets : (s.held.map fun entry => entry.key.fleet).Nodup
  aged : (s.held.map Entry.sandbox).Pairwise (· < ·)
  once : (s.left.map Prod.fst ++ (s.held.map Entry.sandbox ++ hand)).Perm (List.range s.arrived)
  closed : s.closed = true → s.held = []

theorem sound_new : (new : Keeper Policy).Sound [] where
  fleets := List.nodup_nil
  aged := List.Pairwise.nil
  once := List.Perm.refl _
  closed _ := rfl

namespace Sound

variable {s next : Keeper Policy} {hand : List Nat}

theorem removes (sound : s.Sound hand) {gone : List (Entry Policy)} {how : Departure}
    (removed : s.Removes next gone how) : next.Sound hand where
  fleets := (removed.kept.map _).nodup sound.fleets
  aged := sound.aged.sublist (removed.kept.map _)
  once := by
    have split : (gone.map Entry.sandbox ++ next.held.map Entry.sandbox).Perm
        (s.held.map Entry.sandbox) := by
      rw [← List.map_append]
      exact removed.moved.map _
    have names : (gone.map fun entry => (entry.sandbox, how)).map Prod.fst =
        gone.map Entry.sandbox := by
      rw [List.map_map]
      rfl
    rw [removed.left, List.map_append, names, removed.same.2.1, List.append_assoc,
      ← List.append_assoc (gone.map _)]
    exact ((split.append_right hand).append_left _).trans sound.once
  closed := by
    intro closed
    rw [removed.same.2.2.1] at closed
    have empty := removed.kept
    rw [sound.closed closed] at empty
    exact List.sublist_nil.mp empty

theorem leave {n : Nat} (sound : s.Sound [n]) (how : Departure) : (s.leave n how).Sound [] where
  fleets := sound.fleets
  aged := sound.aged
  once := by
    refine List.Perm.trans ?_ sound.once
    simp only [Keeper.leave, List.map_append, List.map_cons, List.map_nil, List.append_nil,
      List.append_assoc]
    exact List.Perm.append_left _ List.perm_append_comm
  closed := sound.closed

theorem held_lt (sound : s.Sound hand) {entry : Entry Policy} (member : entry ∈ s.held) :
    entry.sandbox < s.arrived := by
  have listed : entry.sandbox ∈ List.range s.arrived := by
    refine sound.once.subset ?_
    exact List.mem_append_right _ (List.mem_append_left _ (List.mem_map_of_mem member))
  exact List.mem_range.mp listed

theorem lt_of_left {n m : Nat} (sound : s.Sound [n]) (last : s.arrived = n + 1)
    (member : m ∈ s.left.map Prod.fst) : m < n := by
  have nodup := sound.once.nodup_iff.mpr List.nodup_range
  rw [List.nodup_append] at nodup
  have other : m ≠ n :=
    nodup.2.2 m member n (List.mem_append_right _ (List.mem_singleton_self _))
  have listed := sound.once.subset (List.mem_append_left _ member)
  rw [List.mem_range, last] at listed
  omega

theorem arrive (sound : s.Sound []) :
    Keeper.Sound { s with arrived := s.arrived + 1 } [s.arrived] where
  fleets := sound.fleets
  aged := sound.aged
  once := by
    have before := sound.once
    rw [List.append_nil] at before
    rw [List.range_succ, ← List.append_assoc]
    exact before.append_right _
  closed := sound.closed

theorem push {n : Nat} (sound : s.Sound [n]) (newest : ∀ entry ∈ s.held, entry.sandbox < n)
    (there : s.closed = false) {key : HoldKey Policy} (free : ∀ entry ∈ s.held,
      entry.key.fleet ≠ key.fleet) (lease : String) (since lapse : Int) :
    Keeper.Sound { s with held := s.held ++ [⟨key, lease, n, since, lapse⟩] } [] where
  fleets := by
    rw [List.map_append, List.nodup_append]
    refine ⟨sound.fleets, by simp, ?_⟩
    intro fleet member other single
    obtain ⟨entry, inside, rfl⟩ := List.mem_map.mp member
    rw [List.map_singleton, List.mem_singleton] at single
    rw [single]
    exact free entry inside
  aged := by
    rw [List.map_append, List.pairwise_append]
    refine ⟨sound.aged, List.pairwise_singleton _ _, ?_⟩
    intro older member other single
    obtain ⟨entry, inside, rfl⟩ := List.mem_map.mp member
    rw [List.map_singleton, List.mem_singleton] at single
    rw [single]
    exact newest entry inside
  once := by
    simp only [List.map_append, List.map_singleton, List.append_nil]
    exact sound.once
  closed closed := by
    rw [there] at closed
    contradiction

end Sound

/-! ## Who is evicted -/

/-- What left at a step is on the record, and whoever went for room is older
than every one still held. -/
def Evicts (s next : Keeper Policy) : Prop :=
  ∃ fresh, next.left = s.left ++ fresh ∧
    ∀ n, (n, .destroyed .capped) ∈ fresh → ∀ entry ∈ next.held, n < entry.sandbox

/-- The same where nobody went for room and nobody came. -/
def Quiet (s next : Keeper Policy) : Prop :=
  ∃ fresh, next.left = s.left ++ fresh ∧ (∀ n, (n, .destroyed .capped) ∉ fresh) ∧
    next.held.Sublist s.held

theorem Quiet.refl (s : Keeper Policy) : s.Quiet s :=
  ⟨[], (List.append_nil _).symm, fun _ => List.not_mem_nil, List.Sublist.refl _⟩

theorem Removes.quiet {s next : Keeper Policy} {gone : List (Entry Policy)} {how : Departure}
    (removed : s.Removes next gone how) (other : how ≠ .destroyed .capped) : s.Quiet next := by
  refine ⟨_, removed.left, ?_, removed.kept⟩
  intro n member
  obtain ⟨entry, _, same⟩ := List.mem_map.mp member
  exact other (congrArg Prod.snd same)

theorem leave_quiet (s : Keeper Policy) (n : Nat) (how : Departure)
    (other : how ≠ .destroyed .capped) : s.Quiet (s.leave n how) := by
  refine ⟨[(n, how)], rfl, ?_, List.Sublist.refl _⟩
  intro m member
  rw [List.mem_singleton, Prod.mk.injEq] at member
  exact other member.2.symm

theorem Quiet.trans {first second third : Keeper Policy} (one : first.Quiet second)
    (two : second.Quiet third) : first.Quiet third := by
  obtain ⟨front, at_front, none_front, kept⟩ := one
  obtain ⟨back, at_back, none_back, still⟩ := two
  refine ⟨front ++ back, by rw [at_back, at_front, List.append_assoc], ?_, still.trans kept⟩
  intro n member
  rcases List.mem_append.mp member with inside | inside
  · exact none_front n inside
  · exact none_back n inside

theorem Quiet.evicts {first second third : Keeper Policy} (one : first.Quiet second)
    (two : second.Evicts third) : first.Evicts third := by
  obtain ⟨front, at_front, none_front, _⟩ := one
  obtain ⟨back, at_back, older⟩ := two
  refine ⟨front ++ back, by rw [at_back, at_front, List.append_assoc], ?_⟩
  intro n member
  rcases List.mem_append.mp member with inside | inside
  · exact absurd inside (none_front n)
  · exact older n inside

theorem Evicts.quiet {first second third : Keeper Policy} (one : first.Evicts second)
    (two : second.Quiet third) : first.Evicts third := by
  obtain ⟨front, at_front, older⟩ := one
  obtain ⟨back, at_back, none_back, kept⟩ := two
  refine ⟨front ++ back, by rw [at_back, at_front, List.append_assoc], ?_⟩
  intro n member entry held
  rcases List.mem_append.mp member with inside | inside
  · exact older n inside entry (kept.subset held)
  · exact absurd inside (none_back n)

theorem Evicts.refl (s : Keeper Policy) : s.Evicts s :=
  ⟨[], (List.append_nil _).symm, fun _ member => absurd member List.not_mem_nil⟩

theorem Sound.cap_evicts {s : Keeper Policy} {hand : List Nat} (sound : s.Sound hand)
    (keep : Nat) : s.Evicts (s.cap keep) := by
  refine ⟨_, (s.cap_removes keep).left, ?_⟩
  intro n member entry held
  obtain ⟨old, gone, same⟩ := List.mem_map.mp member
  obtain rfl : old.sandbox = n := congrArg Prod.fst same
  rw [cap_held] at held
  have aged := sound.aged
  rw [← List.take_append_drop (s.held.length - keep) s.held, List.map_append,
    List.pairwise_append] at aged
  exact aged.2.2 _ (List.mem_map_of_mem gone) _ (List.mem_map_of_mem held)

theorem cap_length (s : Keeper Policy) (keep : Nat) : (s.cap keep).held.length ≤ keep := by
  rw [cap_held, List.length_drop]
  omega

/-! ## Parks -/

theorem Sound.release_free {s : Keeper Policy} {hand : List Nat} (sound : s.Sound hand)
    (fleet : String) (reason : Release) :
    ∀ entry ∈ (s.release fleet reason).held, entry.key.fleet ≠ fleet := by
  intro entry member same
  unfold release at member
  cases found : s.held.find? (ofFleet fleet) with
  | none =>
      rw [found] at member
      rw [List.find?_eq_none] at found
      exact found entry member (decide_eq_true same)
  | some first =>
      rw [found] at member
      have matched : ofFleet fleet first = true := List.find?_some found
      have its_own : first.key.fleet = fleet := of_decide_eq_true matched
      have nodup :=
        ((eraseP_perm found).map fun entry => entry.key.fleet).nodup_iff.mpr sound.fleets
      rw [List.map_cons, List.nodup_cons, its_own] at nodup
      exact nodup.1 (List.mem_map.mpr ⟨entry, member, same⟩)

theorem park_cases (s : Keeper Policy) (key : HoldKey Policy) (lease : String) (n : Nat)
    (now : Int) :
    s.park key lease n now = (s, .refused n) ∨
      s.park key lease n now = (s.release key.fleet .superseded, .refused n) ∨
      ∃ room, s.closed = false ∧ s.workers = room + 1 ∧ s.park key lease n now =
        ({ (s.release key.fleet .superseded).cap room with
            held := ((s.release key.fleet .superseded).cap room).held ++
              [⟨key, lease, n, now, after now sandboxHoldIdle⟩] },
          .held (after now sandboxHoldIdle)) := by
  unfold park
  cases closed : s.closed with
  | true => exact .inl rfl
  | false =>
      obtain ⟨gone, removed⟩ := s.release_removes key.fleet .superseded
      have workers := removed.same.1
      cases many : s.workers with
      | zero =>
          rw [many] at workers
          refine .inr (.inl ?_)
          simp only [workers, Bool.false_eq_true, if_false]
      | succ room =>
          rw [many] at workers
          refine .inr (.inr ⟨room, rfl, rfl, ?_⟩)
          simp only [workers, Bool.false_eq_true, if_false]

theorem Sound.parked {s : Keeper Policy} (sound : s.Sound []) (capped : s.held.length ≤ s.workers)
    (key : HoldKey Policy) (lease : String) (heard : Bool) (now : Int) :
    let brought := { s with arrived := s.arrived + 1 }
    let next := (brought.park key lease s.arrived now).1.answerPark key.fleet heard
      (brought.park key lease s.arrived now).2
    next.Sound [] ∧ next.held.length ≤ next.workers ∧ s.Evicts next := by
  intro brought next
  have arrived : brought.Sound [s.arrived] := sound.arrive
  -- A refused sandbox leaves at once, whatever became of the fleet's hold.
  have refused : ∀ t : Keeper Policy, t.Sound [s.arrived] → s.Quiet t →
      t.held.length ≤ t.workers →
      (t.answerPark key.fleet heard (.refused s.arrived)).Sound [] ∧
        (t.answerPark key.fleet heard (.refused s.arrived)).held.length ≤
          (t.answerPark key.fleet heard (.refused s.arrived)).workers ∧
        s.Evicts (t.answerPark key.fleet heard (.refused s.arrived)) := by
    intro t held quiet within
    cases heard with
    | true =>
        exact ⟨held.leave _, within,
          (quiet.trans (t.leave_quiet s.arrived (.refused true) nofun)).evicts (Evicts.refl _)⟩
    | false =>
        have torn : (t.destroy s.arrived).Sound [s.arrived] :=
          ⟨held.fleets, held.aged, held.once, held.closed⟩
        have still : s.Quiet (t.destroy s.arrived) := quiet
        have gone := (t.destroy s.arrived).leave_quiet s.arrived (.refused false) nofun
        exact ⟨torn.leave _, within, (still.trans gone).evicts (Evicts.refl _)⟩
  rcases brought.park_cases key lease s.arrived now with
    closed | no_room | ⟨room, there, workers, made⟩
  · simp only [next, closed]
    exact refused brought arrived (Quiet.refl s) capped
  · simp only [next, no_room]
    obtain ⟨gone, removed⟩ := brought.release_removes key.fleet .superseded
    refine refused _ (arrived.removes removed) (removed.quiet nofun) ?_
    rw [removed.same.1]
    exact Nat.le_trans removed.kept.length_le capped
  · simp only [next, made]
    obtain ⟨gone, removed⟩ := brought.release_removes key.fleet .superseded
    have free := arrived.release_free key.fleet .superseded
    have emptied := arrived.removes removed
    have shrunk := (brought.release key.fleet .superseded).cap_removes room
    have cut := emptied.removes shrunk
    have kept_of := shrunk.kept
    have newest : ∀ entry ∈ ((brought.release key.fleet .superseded).cap room).held,
        entry.sandbox < s.arrived := by
      intro entry member
      exact sound.held_lt ((shrunk.kept.trans removed.kept).subset member)
    have open_still : ((brought.release key.fleet .superseded).cap room).closed = false := by
      rw [shrunk.same.2.2.1, removed.same.2.2.1]
      exact there
    have pushed :=
      cut.push newest open_still (fun entry member => free entry (kept_of.subset member))
      lease now (after now sandboxHoldIdle)
    have evicted : s.Evicts ((brought.release key.fleet .superseded).cap room) :=
      Quiet.evicts (removed.quiet nofun) (emptied.cap_evicts room)
    obtain ⟨fresh, recorded, older⟩ := evicted
    have all_workers : ((brought.release key.fleet .superseded).cap room).workers = room + 1 := by
      rw [shrunk.same.1, removed.same.1]
      exact workers
    have arrived_one : ((brought.release key.fleet .superseded).cap room).arrived =
        s.arrived + 1 := by
      rw [shrunk.same.2.1, removed.same.2.1]
    have short := (brought.release key.fleet .superseded).cap_length room
    generalize (brought.release key.fleet .superseded).cap room = t at *
    have with_new : s.Evicts { t with held := t.held ++
        [⟨key, lease, s.arrived, now, after now sandboxHoldIdle⟩] } := by
      refine ⟨fresh, recorded, ?_⟩
      intro n member entry held
      rcases List.mem_append.mp held with old | new
      · exact older n member entry old
      · rw [List.mem_singleton.mp new]
        have listed : n ∈ t.left.map Prod.fst := by
          rw [recorded]
          exact List.mem_map.mpr ⟨_, List.mem_append_right _ member, rfl⟩
        exact cut.lt_of_left arrived_one listed
    have within : t.held.length + 1 ≤ t.workers := by
      rw [all_workers]
      omega
    cases heard with
    | true =>
        refine ⟨pushed, ?_, with_new⟩
        simp only [answerPark, if_true, List.length_append, List.length_singleton]
        exact within
    | false =>
        obtain ⟨_, dropped⟩ := Keeper.release_removes { t with held := t.held ++
          [⟨key, lease, s.arrived, now, after now sandboxHoldIdle⟩] } key.fleet .superseded
        refine ⟨pushed.removes dropped, ?_, with_new.quiet (dropped.quiet nofun)⟩
        refine Nat.le_trans dropped.kept.length_le ?_
        simp only [answerPark, Bool.false_eq_true, if_false]
        rw [dropped.same.1, List.length_append, List.length_singleton]
        exact within

/-! ## Takes and closing -/

theorem Sound.taken [DecidableEq Policy] {s : Keeper Policy} (sound : s.Sound [])
    (capped : s.held.length ≤ s.workers) (key : HoldKey Policy) (heard : Bool) (now : Int) :
    let next := (s.take key now).1.answerTake heard (s.take key now).2
    next.Sound [] ∧ next.held.length ≤ next.workers := by
  intro next
  cases found : s.held.find? (ofFleet key.fleet) with
  | none =>
      simp only [next, take, found, answerTake]
      exact ⟨sound, capped⟩
  | some entry =>
      by_cases differs : entry.key ≠ key
      · simp only [next, take, found, if_pos differs, answerTake]
        have removed := s.retire_removes .mismatch found
        refine ⟨sound.removes removed, ?_⟩
        rw [removed.same.1]
        exact Nat.le_trans removed.kept.length_le capped
      · simp only [next, take, found, if_neg differs, answerTake]
        have shorter : (s.held.eraseP (ofFleet key.fleet)).length ≤ s.workers :=
          Nat.le_trans List.eraseP_sublist.length_le capped
        -- Between the two the sandbox is in the task's hand.
        have in_hand : Keeper.Sound { s with held := s.held.eraseP (ofFleet key.fleet) }
            [entry.sandbox] := by
          refine ⟨(List.eraseP_sublist.map _).nodup sound.fleets,
            sound.aged.sublist (List.eraseP_sublist.map _), ?_, ?_⟩
          · refine List.Perm.trans (List.Perm.append_left _ ?_) sound.once
            rw [List.append_nil]
            exact (List.perm_append_singleton _ _).trans ((eraseP_perm found).map Entry.sandbox)
          · intro closed
            simp only
            rw [sound.closed closed]
            rfl
        cases heard with
        | true => exact ⟨in_hand.leave .taken, shorter⟩
        | false =>
            have torn : (Keeper.destroy { s with held := s.held.eraseP (ofFleet key.fleet) }
                entry.sandbox).Sound [entry.sandbox] :=
              ⟨in_hand.fleets, in_hand.aged, in_hand.once, in_hand.closed⟩
            exact ⟨torn.leave (.destroyed .superseded), shorter⟩

theorem close_eq (s : Keeper Policy) :
    s.close = { s.retireWhere (fun _ => true) .shutdown with closed := true } := by
  rw [close, retireWhere, retireWhere, retireAll_eq, retireAll_eq]

theorem close_held (s : Keeper Policy) : s.close.held = [] := by
  rw [close_eq, retireWhere, retireAll_eq]
  simp

theorem Sound.close {s : Keeper Policy} (sound : s.Sound []) : s.close.Sound [] := by
  have empty := s.close_held
  have retired := sound.removes (s.retireWhere_removes (fun _ => true) .shutdown)
  rw [close_eq] at empty ⊢
  exact ⟨retired.fleets, retired.aged, retired.once, fun _ => empty⟩

/-! ## Runs -/

structure Held (s : Keeper Policy) : Prop where
  sound : s.Sound []
  capped : s.held.length ≤ s.workers
  stopped : s.stopped = true → s.closed = true ∧ s.destroying = []

theorem held_new : (new : Keeper Policy).Held := ⟨sound_new, Nat.le_refl _, nofun⟩

def flags (s : Keeper Policy) : Bool × Bool := (s.stopped, s.closed)

theorem Removes.flags {s next : Keeper Policy} {gone : List (Entry Policy)} {how : Departure}
    (removed : s.Removes next gone how) : next.flags = s.flags :=
  Prod.ext removed.same.2.2.2 removed.same.2.2.1

theorem flags_answerPark (s : Keeper Policy) (fleet : String) (heard : Bool) (parked : Parked) :
    (s.answerPark fleet heard parked).flags = s.flags := by
  cases parked with
  | refused sandbox => cases heard <;> rfl
  | held lapse =>
      cases heard with
      | true => rfl
      | false =>
          obtain ⟨_, removed⟩ := s.release_removes fleet .superseded
          exact removed.flags

theorem flags_park (s : Keeper Policy) (key : HoldKey Policy) (lease : String) (n : Nat)
    (now : Int) : (s.park key lease n now).1.flags = s.flags := by
  obtain ⟨_, removed⟩ := s.release_removes key.fleet .superseded
  rcases s.park_cases key lease n now with closed | no_room | ⟨room, _, _, made⟩
  · rw [closed]
  · rw [no_room]
    exact removed.flags
  · rw [made]
    exact (cap_removes _ room).flags.trans removed.flags

theorem flags_parked (s : Keeper Policy) (key : HoldKey Policy) (lease : String) (heard : Bool)
    (now : Int) :
    ((park { s with arrived := s.arrived + 1 } key lease s.arrived now).1.answerPark key.fleet heard
      (park { s with arrived := s.arrived + 1 } key lease s.arrived now).2).flags = s.flags :=
  (flags_answerPark _ key.fleet heard _).trans (flags_park _ key lease s.arrived now)

theorem flags_take [DecidableEq Policy] (s : Keeper Policy) (key : HoldKey Policy)
    (heard : Bool) (now : Int) :
    ((s.take key now).1.answerTake heard (s.take key now).2).flags = s.flags := by
  unfold take
  cases s.held.find? (ofFleet key.fleet) with
  | none => rfl
  | some entry =>
      by_cases differs : entry.key ≠ key
      · simp only [if_pos differs]
        rfl
      · simp only [if_neg differs]
        cases heard <;> rfl

namespace Held

variable {s next : Keeper Policy}

theorem removes {gone : List (Entry Policy)} {how : Departure} (sound : s.Sound [])
    (capped : s.held.length ≤ s.workers) (running : s.stopped = false)
    (removed : s.Removes next gone how) : next.Held := by
  refine ⟨sound.removes removed, ?_, ?_⟩
  · rw [removed.same.1]
    exact Nat.le_trans removed.kept.length_le capped
  · intro stopped
    rw [removed.same.2.2.2, running] at stopped
    contradiction

theorem step [DecidableEq Policy] (held : s.Held) (event : Int × HoldRequest Policy) :
    (s.step event).Held ∧ (event.2.caps = true → s.Evicts (s.step event)) := by
  unfold Keeper.step
  by_cases ended : s.stopped = true
  · rw [if_pos ended]
    exact ⟨held, fun _ => Evicts.refl s⟩
  · rw [if_neg ended]
    obtain ⟨now, request⟩ := event
    have running : s.stopped = false := Bool.eq_false_iff.mpr ended
    have expired := s.retireWhere_removes (fun entry => decide (entry.until_ ≤ now)) .expired
    have quiet : s.Quiet (s.expire now) := expired.quiet nofun
    have sound : (s.expire now).Sound [] := held.sound.removes expired
    have capped : (s.expire now).held.length ≤ (s.expire now).workers :=
      (Held.removes held.sound held.capped running expired).capped
    have going : (s.expire now).stopped = false := expired.same.2.2.2.trans running
    simp only
    generalize s.expire now = t at quiet sound capped going
    -- A request that only takes from the holds takes nothing for room.
    have taking : ∀ {next : Keeper Policy} {gone : List (Entry Policy)} {how : Departure},
        t.Removes next gone how → next.Held := Held.removes sound capped going
    have ongoing : ∀ {next : Keeper Policy}, next.stopped = t.stopped →
        next.stopped = true → next.closed = true ∧ next.destroying = [] := by
      intro next same stopped
      rw [same, going] at stopped
      contradiction
    cases request with
    | take key heard =>
        obtain ⟨next_sound, next_capped⟩ := sound.taken capped key heard now
        exact ⟨⟨next_sound, next_capped,
          ongoing (congrArg Prod.fst (t.flags_take key heard now))⟩, nofun⟩
    | park key lease heard =>
        obtain ⟨next_sound, next_capped, evicts⟩ := sound.parked capped key lease heard now
        have same := t.flags_parked key lease heard now
        exact ⟨⟨next_sound, next_capped, ongoing (congrArg Prod.fst same)⟩,
          fun _ => quiet.evicts evicts⟩
    | release fleet reason =>
        obtain ⟨_, removed⟩ := t.release_removes fleet reason
        exact ⟨taking removed, nofun⟩
    | supersede lease =>
        obtain ⟨_, removed⟩ := t.supersede_removes lease
        exact ⟨taking removed, nofun⟩
    | discard sandbox =>
        exact ⟨⟨⟨sound.fleets, sound.aged, sound.once, sound.closed⟩, capped, ongoing rfl⟩, nofun⟩
    | occupy fleet =>
        obtain ⟨_, removed⟩ := t.occupy_removes fleet
        exact ⟨taking removed, nofun⟩
    | vacate =>
        exact ⟨⟨⟨sound.fleets, sound.aged, sound.once, sound.closed⟩, capped, ongoing rfl⟩, nofun⟩
    | resize workers =>
        have resized : Keeper.Sound { t with workers := workers } [] :=
          ⟨sound.fleets, sound.aged, sound.once, sound.closed⟩
        have removed := Keeper.cap_removes { t with workers := workers } workers
        refine ⟨⟨resized.removes removed, ?_, ongoing removed.same.2.2.2⟩, fun _ => ?_⟩
        · rw [removed.same.1]
          exact Keeper.cap_length { t with workers := workers } workers
        · exact Quiet.evicts quiet (resized.cap_evicts workers)
    | fleets => exact ⟨⟨sound, capped, ongoing rfl⟩, nofun⟩
    | close =>
        refine ⟨⟨sound.close, ?_, ongoing ?_⟩, nofun⟩
        · rw [close_held]
          exact Nat.zero_le _
        · rw [close_eq, retireWhere, retireAll_eq]
    | shutdown =>
        have closed := sound.close
        have empty := t.close_held
        refine ⟨⟨⟨closed.fleets, closed.aged, closed.once, closed.closed⟩, ?_, ?_⟩, nofun⟩
        · simp only [finish]
          rw [empty]
          exact Nat.zero_le _
        · intro _
          simp only [finish]
          exact ⟨by rw [close_eq], trivial⟩

theorem run [DecidableEq Policy] (held : s.Held) (events : List (Int × HoldRequest Policy)) :
    (Run.final Keeper.step s events).Held :=
  Run.invariant_of_step Held (fun _ event held => (Held.step held event).1) held events _
    (Run.final_mem_states Keeper.step s events)

end Held

theorem closed_step [DecidableEq Policy] {s : Keeper Policy} (closed : s.closed = true)
    (event : Int × HoldRequest Policy) : (s.step event).closed = true := by
  unfold step
  by_cases ended : s.stopped = true
  · rw [if_pos ended]
    exact closed
  · rw [if_neg ended]
    obtain ⟨now, request⟩ := event
    have expired := s.retireWhere_removes (fun entry => decide (entry.until_ ≤ now)) .expired
    have still : (s.expire now).closed = true := expired.same.2.2.1.trans closed
    simp only
    generalize s.expire now = t at still
    cases request with
    | take key heard => exact (congrArg Prod.snd (t.flags_take key heard now)).trans still
    | park key lease heard =>
        exact (congrArg Prod.snd (t.flags_parked key lease heard now)).trans still
    | release fleet reason =>
        obtain ⟨_, removed⟩ := t.release_removes fleet reason
        exact removed.same.2.2.1.trans still
    | supersede lease =>
        obtain ⟨_, removed⟩ := t.supersede_removes lease
        exact removed.same.2.2.1.trans still
    | discard sandbox => exact still
    | occupy fleet =>
        obtain ⟨_, removed⟩ := t.occupy_removes fleet
        exact removed.same.2.2.1.trans still
    | vacate => exact still
    | resize workers =>
        exact (Keeper.cap_removes { t with workers := workers } workers).same.2.2.1.trans still
    | fleets => exact still
    | close =>
        simp only
        rw [close_eq]
    | shutdown =>
        simp only [finish]
        rw [close_eq]

theorem closed_run [DecidableEq Policy] {s : Keeper Policy} (closed : s.closed = true)
    (events : List (Int × HoldRequest Policy)) : (Run.final step s events).closed = true := by
  have stays : ∀ (s : Keeper Policy) (event : Int × HoldRequest Policy), s.closed = true →
      (s.step event).closed = true := fun _ event held => closed_step held event
  exact Run.invariant_of_step (fun s : Keeper Policy => s.closed = true) stays closed events _
    (Run.final_mem_states step s events)

theorem stopped_run [DecidableEq Policy] {s : Keeper Policy} (stopped : s.stopped = true)
    (events : List (Int × HoldRequest Policy)) : Run.final step s events = s := by
  induction events with
  | nil => rfl
  | cons event rest ih =>
      have same : s.step event = s := by rw [step, if_pos stopped]
      rw [Run.final, same]
      exact ih

structure Kept [DecidableEq Policy] (s : Keeper Policy) : Prop where
  one_each : (s.held.map fun entry => entry.key.fleet).Nodup
  capped : s.held.length ≤ s.workers
  /-- Every parked sandbox is held or has left, and once. -/
  once : (s.left.map Prod.fst ++ s.held.map Entry.sandbox).Perm (List.range s.arrived)
  aged : (s.held.map Entry.sandbox).Pairwise (· < ·)
  evicts : ∀ event : Int × HoldRequest Policy, event.2.caps = true → s.Evicts (s.step event)
  closes : ∀ now later, (Run.final step s ((now, .close) :: later)).held = []
  stops : ∀ now later, (Run.final step s ((now, .shutdown) :: later)).held = [] ∧
    (Run.final step s ((now, .shutdown) :: later)).destroying = []

theorem Held.closed_after [DecidableEq Policy] {s : Keeper Policy} (held : s.Held) (now : Int) :
    (s.step (now, .close)).closed = true := by
  unfold Keeper.step
  by_cases ended : s.stopped = true
  · rw [if_pos ended]
    exact (held.stopped ended).1
  · rw [if_neg ended]
    simp only
    rw [close_eq]

theorem Held.stopped_after [DecidableEq Policy] (s : Keeper Policy) (now : Int) :
    (s.step (now, .shutdown)).stopped = true := by
  unfold Keeper.step
  by_cases ended : s.stopped = true
  · rw [if_pos ended]
    exact ended
  · rw [if_neg ended]

theorem Held.kept [DecidableEq Policy] {s : Keeper Policy} (held : s.Held) : s.Kept where
  one_each := held.sound.fleets
  capped := held.capped
  once := by
    have once := held.sound.once
    rwa [List.append_nil] at once
  aged := held.sound.aged
  evicts event caps := (held.step event).2 caps
  closes now later := by
    have closed := closed_run (held.closed_after now) later
    exact ((held.run ((now, .close) :: later)).sound.closed closed)
  stops now later := by
    have stopped := Held.stopped_after s now
    have after_it := (held.step (now, .shutdown)).1
    rw [Run.final, stopped_run stopped later]
    exact ⟨after_it.sound.closed (after_it.stopped stopped).1, (after_it.stopped stopped).2⟩

end Keeper

/-- Over any order of requests, at any instants, heard or not. -/
theorem keeper_kept {Policy : Type} [DecidableEq Policy]
    (events : List (Int × HoldRequest Policy)) :
    (Run.final Keeper.step Keeper.new events).Kept :=
  (Keeper.held_new.run events).kept

end Agentsfleet.Supervisor
