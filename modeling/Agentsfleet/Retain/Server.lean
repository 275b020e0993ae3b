import Agentsfleet.Library.Cut
import Agentsfleet.Library.Run

/-!
# A stream and its consumer groups

What the server keeps of one stream, and what an append, a delivery, an
acknowledgement and a trim each do to it.  An entry's id is above every id the
stream has had; a group is handed the entries past its last delivered id, and
holds each as pending until it is acknowledged, whether or not the stream still
has it.
-/

set_option autoImplicit false

namespace Agentsfleet.Retain

open Agentsfleet.Library

/-- A stream entry's position: the two integers an id is minted from. -/
structure Position where
  millis : UInt64
  sequence : UInt64
deriving DecidableEq, Repr

namespace Position

instance : LE Position :=
  ⟨fun a b => a.millis.toNat < b.millis.toNat ∨
    a.millis.toNat = b.millis.toNat ∧ a.sequence.toNat ≤ b.sequence.toNat⟩

instance : LT Position :=
  ⟨fun a b => a.millis.toNat < b.millis.toNat ∨
    a.millis.toNat = b.millis.toNat ∧ a.sequence.toNat < b.sequence.toNat⟩

theorem le_def {a b : Position} : a ≤ b ↔ a.millis.toNat < b.millis.toNat ∨
    a.millis.toNat = b.millis.toNat ∧ a.sequence.toNat ≤ b.sequence.toNat := Iff.rfl

theorem lt_def {a b : Position} : a < b ↔ a.millis.toNat < b.millis.toNat ∨
    a.millis.toNat = b.millis.toNat ∧ a.sequence.toNat < b.sequence.toNat := Iff.rfl

instance decidableLE (a b : Position) : Decidable (a ≤ b) := decidable_of_iff _ le_def.symm

instance decidableLT (a b : Position) : Decidable (a < b) := decidable_of_iff _ lt_def.symm

instance : LinearOrder Position where
  le_refl a := by rw [le_def]; omega
  le_trans a b c := by simp only [le_def]; omega
  lt_iff_le_not_ge a b := by simp only [le_def, lt_def]; omega
  le_antisymm a b := by
    intro low high
    rw [le_def] at low high
    cases a
    cases b
    simp only [mk.injEq, ← UInt64.toNat_inj] at *
    omega
  le_total a b := by simp only [le_def]; omega
  toDecidableLE := decidableLE
  toDecidableLT := decidableLT

end Position

structure Group where
  lastDelivered : Position
  pending : List Position
  delivered : ∀ id ∈ pending, id ≤ lastDelivered

structure Stream where
  entries : List Position
  newest : Position
  groups : String → Option Group
  ascending : Ascending entries
  minted : ∀ id ∈ entries, id ≤ newest
  reached : ∀ name g, groups name = some g → g.lastDelivered ≤ newest

/-- A consumer of the group was handed the entry, and it was acknowledged. -/
def Group.Done (g : Group) (id : Position) : Prop := id ≤ g.lastDelivered ∧ id ∉ g.pending

/-- `XREADGROUP … >`: at most `count` of the entries the group was not handed yet. -/
def Group.deliver (g : Group) (entries : List Position) (count : Nat) : Group :=
  let handed := (entries.filter (g.lastDelivered < ·)).take count
  { lastDelivered := peak g.lastDelivered handed
    pending := g.pending ++ handed
    delivered := by
      intro id member
      rcases List.mem_append.mp member with held | now
      · exact le_trans (g.delivered id held) (start_le_peak _ _)
      · exact le_peak now }

/-- `XACK` -/
def Group.ack (g : Group) (ids : List Position) : Group :=
  { lastDelivered := g.lastDelivered
    pending := g.pending.filter (· ∉ ids)
    delivered := fun id member => g.delivered id (List.mem_filter.mp member).1 }

theorem Group.deliver_le {g : Group} {entries : List Position} {count : Nat} {newest : Position}
    (reached : g.lastDelivered ≤ newest) (minted : ∀ id ∈ entries, id ≤ newest) :
    (g.deliver entries count).lastDelivered ≤ newest := by
  refine peak_le reached fun id member => minted id ?_
  exact (List.mem_filter.mp (List.mem_of_mem_take member)).1

theorem Group.Done.deliver {g : Group} {id : Position} (done : g.Done id)
    (entries : List Position) (count : Nat) : (g.deliver entries count).Done id := by
  refine ⟨le_trans done.1 (start_le_peak _ _), fun member => ?_⟩
  rcases List.mem_append.mp member with held | now
  · exact done.2 held
  · have fresh := (List.mem_filter.mp (List.mem_of_mem_take now)).2
    exact absurd done.1 (not_le.mpr (of_decide_eq_true fresh))

theorem Group.Done.ack {g : Group} {id : Position} (done : g.Done id) (ids : List Position) :
    (g.ack ids).Done id :=
  ⟨done.1, fun member => done.2 (List.mem_filter.mp member).1⟩

namespace Stream

def regroup (s : Stream) (change : Group → Group) (name : String)
    (bounded : ∀ g, g.lastDelivered ≤ s.newest → (change g).lastDelivered ≤ s.newest) : Stream :=
  { s with
    groups := fun other => if other = name then (s.groups name).map change else s.groups other
    reached := by
      intro other g held
      split at held
      · obtain ⟨before, found, rfl⟩ := Option.map_eq_some_iff.mp held
        exact bounded before (s.reached name before found)
      · exact s.reached other g held }

/-- `XADD`, under the id the server minted; an id not past the newest is refused. -/
def append (s : Stream) (id : Position) : Stream :=
  if fresh : s.newest < id then
    { entries := s.entries ++ [id]
      newest := id
      groups := s.groups
      ascending := s.ascending.concat fun other member =>
        lt_of_le_of_lt (s.minted other member) fresh
      minted := by
        intro other member
        rcases List.mem_append.mp member with old | new
        · exact le_of_lt (lt_of_le_of_lt (s.minted other old) fresh)
        · exact le_of_eq (List.mem_singleton.mp new)
      reached := fun name g held => le_of_lt (lt_of_le_of_lt (s.reached name g held) fresh) }
  else s

/-- `XTRIM … MINID`: every entry under `floor` goes, whatever the groups owe. -/
def trim (s : Stream) (floor : Position) : Stream :=
  { s with
    entries := cut floor s.entries
    ascending := s.ascending.cut floor
    minted := fun id member => s.minted id (mem_cut.mp member).1 }

end Stream

inductive Event where
  | append (id : Position)
  | deliver (group : String) (count : Nat)
  | ack (group : String) (ids : List Position)
  | trim (floor : Position)
deriving DecidableEq

def Stream.step (s : Stream) : Event → Stream
  | .append id => s.append id
  | .deliver group count =>
      s.regroup (fun g => g.deliver s.entries count) group
        fun _ reached => Group.deliver_le reached s.minted
  | .ack group ids => s.regroup (fun g => g.ack ids) group fun _ reached => reached
  | .trim floor => s.trim floor

abbrev Stream.after (s : Stream) (events : List Event) : Stream := Run.final Stream.step s events

/-! ## What others leave -/

def Stream.Done (s : Stream) (group : String) (id : Position) : Prop :=
  ∃ g, s.groups group = some g ∧ g.Done id

theorem Stream.Done.regroup {s : Stream} {group : String} {id : Position} (done : s.Done group id)
    {change : Group → Group} {name : String}
    {bounded : ∀ g, g.lastDelivered ≤ s.newest → (change g).lastDelivered ≤ s.newest}
    (keeps : ∀ g : Group, g.Done id → (change g).Done id) :
    (s.regroup change name bounded).Done group id := by
  obtain ⟨g, held, finished⟩ := done
  by_cases same : group = name
  · refine ⟨change g, ?_, keeps g finished⟩
    subst same
    simp [Stream.regroup, held]
  · exact ⟨g, by simp [Stream.regroup, same, held], finished⟩

theorem Stream.append_groups (s : Stream) (id : Position) :
    (s.append id).groups = s.groups := by
  rw [Stream.append]
  split
  · rfl
  · rfl

theorem Stream.Done.step {s : Stream} {group : String} {id : Position} (done : s.Done group id)
    (event : Event) : (s.step event).Done group id := by
  cases event with
  | append other =>
      obtain ⟨g, held, finished⟩ := done
      exact ⟨g, (congrFun (s.append_groups other) group).trans held, finished⟩
  | trim floor => exact done
  | deliver other count =>
      rw [Stream.step]
      exact done.regroup fun g finished => finished.deliver s.entries count
  | ack other ids =>
      rw [Stream.step]
      exact done.regroup fun g finished => finished.ack ids

theorem Stream.Done.after {s : Stream} {group : String} {id : Position} (done : s.Done group id)
    (events : List Event) : (s.after events).Done group id := by
  induction events generalizing s with
  | nil => exact done
  | cons event rest ih => exact ih (done.step event)

theorem Stream.delivered_step {s : Stream} {group : String} {g : Group}
    (held : s.groups group = some g) (event : Event) :
    ∃ g', (s.step event).groups group = some g' ∧ g.lastDelivered ≤ g'.lastDelivered := by
  cases event with
  | append other => exact ⟨g, (congrFun (s.append_groups other) group).trans held, le_refl _⟩
  | trim floor => exact ⟨g, held, le_refl _⟩
  | deliver other count =>
      by_cases same : group = other
      · refine ⟨g.deliver s.entries count, ?_, start_le_peak _ _⟩
        subst same
        simp [Stream.step, Stream.regroup, held]
      · exact ⟨g, by simp [Stream.step, Stream.regroup, same, held], le_refl _⟩
  | ack other ids =>
      by_cases same : group = other
      · refine ⟨g.ack ids, ?_, le_refl _⟩
        subst same
        simp [Stream.step, Stream.regroup, held]
      · exact ⟨g, by simp [Stream.step, Stream.regroup, same, held], le_refl _⟩

theorem Stream.delivered_after {s : Stream} {group : String} {g : Group}
    (held : s.groups group = some g) (events : List Event) :
    ∃ g', (s.after events).groups group = some g' ∧ g.lastDelivered ≤ g'.lastDelivered := by
  induction events generalizing s g with
  | nil => exact ⟨g, held, le_refl _⟩
  | cons event rest ih =>
      obtain ⟨next, found, forward⟩ := Stream.delivered_step held event
      obtain ⟨last, there_, further⟩ := ih found
      exact ⟨last, there_, le_trans forward further⟩

def Event.keeps : Event → Bool
  | .trim _ => false
  | _ => true

/-- What no trim touched has only grown, past every id it had minted. -/
structure Stream.Extends (s s' : Stream) : Prop where
  newest : s.newest ≤ s'.newest
  entries : ∃ later, s'.entries = s.entries ++ later ∧ ∀ id ∈ later, s.newest < id

namespace Stream.Extends

theorem refl (s : Stream) : s.Extends s :=
  ⟨le_refl _, [], (List.append_nil _).symm, fun _ member => absurd member List.not_mem_nil⟩

theorem trans {first second third : Stream} (one : first.Extends second)
    (two : second.Extends third) : first.Extends third := by
  obtain ⟨low, later, grown, above⟩ := one
  obtain ⟨low', later', grown', above'⟩ := two
  refine ⟨le_trans low low', later ++ later', ?_, fun id member => ?_⟩
  · rw [grown', grown, List.append_assoc]
  · rcases List.mem_append.mp member with early | late
    · exact above id early
    · exact lt_of_le_of_lt low (above' id late)

theorem length_le {first second : Stream} (one : first.Extends second) :
    first.entries.length ≤ second.entries.length := by
  obtain ⟨_, later, grown, _⟩ := one
  rw [grown, List.length_append]
  omega

end Stream.Extends

theorem Stream.extends_step (s : Stream) {event : Event} (keeps : event.keeps = true) :
    s.Extends (s.step event) := by
  cases event with
  | trim floor => cases keeps
  | deliver group count => exact ⟨le_refl _, [], (List.append_nil _).symm, by simp⟩
  | ack group ids => exact ⟨le_refl _, [], (List.append_nil _).symm, by simp⟩
  | append id =>
      rw [Stream.step, Stream.append]
      split
      · rename_i fresh
        refine ⟨le_of_lt fresh, [id], rfl, fun other member => ?_⟩
        rw [List.mem_singleton.mp member]
        exact fresh
      · exact .refl s

theorem Stream.extends_after (s : Stream) {events : List Event}
    (keeps : ∀ event ∈ events, event.keeps = true) : s.Extends (s.after events) := by
  induction events generalizing s with
  | nil => exact .refl s
  | cons event rest ih =>
      have next := s.extends_step (keeps event List.mem_cons_self)
      exact next.trans (ih (s.step event) fun e member => keeps e (List.mem_cons_of_mem _ member))

end Agentsfleet.Retain
