import Agentsfleet.Library.Run
import Agentsfleet.Library.SortedMap
import Mathlib.Data.List.Perm.Basic

/-!
# The children of one run

The registry's book of children, which every loop of a run reaches under one
lock.  A start reserves its child there and only then asks the root loop for it,
so the requests of two starts may arrive in either order.  Ends arrive from
the loops, from their guards and from `interrupt_agent`, in any order and any
number of times.
-/

set_option autoImplicit false

namespace Agentsfleet.Nested

open Agentsfleet.Library

def childrenRunningMax : Nat := 4
def childrenPerRunMax : Nat := 16

inductive Status where
  | running
  | done (answer : String)
  | failed (detail : String)
  | interrupted
deriving DecidableEq, Repr

inductive Kind where
  | running
  | done
  | failed
  | interrupted
deriving DecidableEq, Repr

namespace Status

def isFinal : Status → Bool
  | .running => false
  | _ => true

def kind : Status → Kind
  | .running => .running
  | .done _ => .done
  | .failed _ => .failed
  | .interrupted => .interrupted

end Status

/-- How a loop's turns end; a failure is read by its detail. -/
inductive Ending where
  | answered (text : String)
  | failed (detail : String)
  | stopped

/-- How a child's turns ended, as the status its parent reads. -/
def status (scrub : String → String) : Ending → Status
  | .answered text => .done (scrub text)
  | .failed detail => .failed detail
  | .stopped => .interrupted

theorem status_isFinal (scrub : String → String) (ending : Ending) :
    (status scrub ending).isFinal = true := by
  cases ending <;> rfl

structure Stop where
  lineage : List Nat
  cancelled : Bool
deriving DecidableEq, Repr

structure Child where
  status : Status
  stop : Stop
  depth : Nat
  calls : Nat
deriving DecidableEq, Repr

/-- The child once `id`'s stop is cancelled. -/
def Child.cancelledBy (id : Nat) (child : Child) : Child :=
  if id ∈ child.stop.lineage then { child with stop := { child.stop with cancelled := true } }
  else child

/-- A child to start, as the root loop receives it. -/
structure Start where
  id : Nat
  selection : List String
  depth : Nat
  task : String
deriving DecidableEq, Repr

inductive ToolErrorCode where
  | childCapReached
deriving DecidableEq, Repr

structure Book where
  next : Nat
  running : Nat
  started : Nat
  children : SortedMap Nat Child

namespace Book

def empty : Book := ⟨0, 0, 0, SortedMap.empty⟩

def stopOf (book : Book) (root : Bool) : Option Nat → Stop
  | none => ⟨[], root⟩
  | some id =>
      match book.children.get id with
      | none => ⟨[], root⟩
      | some child => child.stop

/-- The locked part of `Registry::start`. -/
def reserve (book : Book) (depth : Nat) (parent : Stop) : Except ToolErrorCode (Book × Nat) :=
  if childrenRunningMax ≤ book.running ∨ childrenPerRunMax ≤ book.started then
    .error .childCapReached
  else
    let id := book.next + 1
    let child : Child := ⟨.running, ⟨id :: parent.lineage, parent.cancelled⟩, depth, 0⟩
    .ok (⟨id, book.running + 1, book.started + 1, book.children.insert id child⟩, id)

/-- `Book::end`: moves child `id` to `status` when it is still running, and
answers the status in force after. -/
def ends (book : Book) (id : Nat) (status : Status) : Book × Kind :=
  match book.children.get id with
  | none => (book, status.kind)
  | some child =>
      if child.status.isFinal then (book, child.status.kind)
      else
        let children :=
          (book.children.map (Child.cancelledBy id)).insert id
            { child.cancelledBy id with status := status }
        ({ book with children := children, running := book.running - 1 }, status.kind)

def called (book : Book) (id : Nat) : Book :=
  match book.children.get id with
  | none => book
  | some child =>
      { book with children := book.children.insert id { child with calls := child.calls + 1 } }

def cancelAll (book : Book) : Book :=
  { book with
    children := book.children.map fun child =>
      { child with stop := { child.stop with cancelled := true } } }

end Book

/-- The registry, the starts reserved and not yet asked for, and whether the
root's own stop is cancelled. -/
structure Registry where
  book : Book
  reserved : List Start
  requests : List Start
  stopped : Bool

inductive Event where
  | start (depth : Nat) (task : String) (selection : List String) (parent : Option Nat)
  /-- The request of the `n`th reserved start reaches the root loop's channel. -/
  | asked (n : Nat)
  | interrupt (id : Nat)
  /-- A loop's guard records its end. -/
  | ended (id : Nat) (ending : Ending)
  /-- A guard is dropped armed. -/
  | dropped (id : Nat)
  | called (id : Nat)
  | stop

namespace Registry

def new : Registry := ⟨Book.empty, [], [], false⟩

/-- `Registry::start`, up to its request. -/
def start (s : Registry) (depth : Nat) (task : String) (selection : List String)
    (parent : Option Nat) : Registry × Except ToolErrorCode Nat :=
  match s.book.reserve depth (s.book.stopOf s.stopped parent) with
  | .error code => (s, .error code)
  | .ok (book, id) =>
      ({ s with book := book, reserved := s.reserved ++ [⟨id, selection, depth, task⟩] }, .ok id)

def asked (s : Registry) (n : Nat) : Registry :=
  match s.reserved[n]? with
  | none => s
  | some start =>
      { s with reserved := s.reserved.eraseIdx n, requests := s.requests ++ [start] }

def interrupt (s : Registry) (id : Nat) : Registry × Option Kind :=
  match s.book.children.get id with
  | none => (s, none)
  | some _ =>
      let (book, kind) := s.book.ends id .interrupted
      ({ s with book := book }, some kind)

def ended (s : Registry) (id : Nat) (status : Status) : Registry × Kind :=
  let (book, kind) := s.book.ends id status
  ({ s with book := book }, kind)

def step (scrub : String → String) (s : Registry) : Event → Registry
  | .start depth task selection parent => (s.start depth task selection parent).1
  | .asked n => s.asked n
  | .interrupt id => (s.interrupt id).1
  | .ended id ending => (s.ended id (status scrub ending)).1
  | .dropped id => (s.ended id .interrupted).1
  | .called id => { s with book := s.book.called id }
  | .stop => { s with book := s.book.cancelAll, stopped := true }

end Registry

/-! ## What one operation does to the book -/

namespace Book

variable {book next : Book} {id : Nat}

theorem reserve_ok {depth : Nat} {parent : Stop}
    (reserved : book.reserve depth parent = .ok (next, id)) :
    book.running < childrenRunningMax ∧ book.started < childrenPerRunMax ∧ id = book.next + 1 ∧
      next = ⟨id, book.running + 1, book.started + 1, book.children.insert id
        ⟨.running, ⟨id :: parent.lineage, parent.cancelled⟩, depth, 0⟩⟩ := by
  unfold reserve at reserved
  by_cases full : childrenRunningMax ≤ book.running ∨ childrenPerRunMax ≤ book.started
  · rw [if_pos full] at reserved
    contradiction
  · rw [if_neg full] at reserved
    rw [not_or, Nat.not_le, Nat.not_le] at full
    simp only [Except.ok.injEq, Prod.mk.injEq] at reserved
    obtain ⟨rfl, rfl⟩ := reserved
    exact ⟨full.1, full.2, rfl, rfl⟩

theorem ends_cases (book : Book) (id : Nat) (status : Status) :
    (book.ends id status).1 = book ∨ ∃ child, book.children.get id = some child ∧
      child.status.isFinal = false ∧ (book.ends id status).1 =
        { book with
          children := (book.children.map (Child.cancelledBy id)).insert id
            { child.cancelledBy id with status := status }
          running := book.running - 1 } := by
  unfold ends
  cases held : book.children.get id with
  | none => exact .inl rfl
  | some child =>
      simp only
      by_cases ended : child.status.isFinal = true
      · rw [if_pos ended]
        exact .inl rfl
      · rw [if_neg ended]
        exact .inr ⟨child, rfl, Bool.eq_false_iff.mpr ended, rfl⟩

end Book

/-! ## Invariants of the book -/

def isRunning (child : Child) : Bool := !child.status.isFinal

@[simp]
theorem status_cancelledBy (id : Nat) (child : Child) :
    (child.cancelledBy id).status = child.status := by
  unfold Child.cancelledBy
  split <;> rfl

@[simp]
theorem lineage_cancelledBy (id : Nat) (child : Child) :
    (child.cancelledBy id).stop.lineage = child.stop.lineage := by
  unfold Child.cancelledBy
  split <;> rfl

theorem cancelled_cancelledBy {id : Nat} {child : Child} (below : id ∈ child.stop.lineage) :
    (child.cancelledBy id).stop.cancelled = true := by
  rw [Child.cancelledBy, if_pos below]

theorem cancelled_of_cancelled (id : Nat) {child : Child}
    (cancelled : child.stop.cancelled = true) : (child.cancelledBy id).stop.cancelled = true := by
  unfold Child.cancelledBy
  split
  · rfl
  · exact cancelled

theorem cancelledBy_of_cancelled (id : Nat) {child : Child}
    (cancelled : child.stop.cancelled = true) : child.cancelledBy id = child := by
  obtain ⟨status, ⟨lineage, flag⟩, depth, calls⟩ := child
  obtain rfl : flag = true := cancelled
  unfold Child.cancelledBy
  split <;> rfl

/-- What every operation keeps of the book.  The last field is why an ended
child leaves no descendant running unstopped. -/
structure Book.Sound (book : Book) : Prop where
  next : book.next = book.started
  keys : book.children.keys = List.range' 1 book.started
  running : book.running = book.children.values.countP isRunning
  capped : book.running ≤ childrenRunningMax
  limited : book.started ≤ childrenPerRunMax
  own : ∀ id child, book.children.get id = some child → id ∈ child.stop.lineage
  stops : ∀ id child, book.children.get id = some child → ∀ above ended,
    above ∈ child.stop.lineage → book.children.get above = some ended →
      ended.status.isFinal = true → child.stop.cancelled = true

theorem Book.sound_empty : Book.empty.Sound where
  next := rfl
  keys := rfl
  running := rfl
  capped := Nat.zero_le _
  limited := Nat.zero_le _
  own _ _ held := by simp [Book.empty] at held
  stops _ _ held := by simp [Book.empty] at held

namespace Book.Sound

variable {book : Book} (sound : book.Sound)

include sound

theorem held_le {id : Nat} {child : Child} (held : book.children.get id = some child) :
    1 ≤ id ∧ id ≤ book.started := by
  have member : id ∈ book.children.keys :=
    (book.children.mem_keys_iff id).mpr (by rw [held]; rfl)
  rw [sound.keys, List.mem_range'_1] at member
  omega

theorem fresh : book.children.get (book.started + 1) = none := by
  cases held : book.children.get (book.started + 1) with
  | none => rfl
  | some child =>
      have below := (sound.held_le held).2
      omega

theorem stopped {id : Nat} {child : Child} (held : book.children.get id = some child)
    (final : child.status.isFinal = true) : child.stop.cancelled = true :=
  sound.stops id child held id child (sound.own id child held) held final

theorem reserve {depth : Nat} {root : Bool} {parent : Option Nat} {next : Book} {id : Nat}
    (reserved : book.reserve depth (book.stopOf root parent) = .ok (next, id)) : next.Sound := by
  obtain ⟨room, left, rfl, rfl⟩ := Book.reserve_ok reserved
  have absent : book.children.get (book.next + 1) = none := by
    rw [sound.next]
    exact sound.fresh
  refine ⟨?_, ?_, ?_, room, left, ?_, ?_⟩
  · rw [sound.next]
  · have above : ∀ other ∈ book.children.keys, other < book.next + 1 := by
      intro other member
      rw [sound.keys, List.mem_range'_1] at member
      have := sound.next
      omega
    rw [SortedMap.keys_insert_last _ _ above, sound.keys, sound.next, List.range'_concat]
    congr 2
    omega
  · have counts := SortedMap.countP_insert isRunning book.children (book.next + 1)
      ⟨.running, ⟨(book.next + 1) :: (book.stopOf root parent).lineage,
        (book.stopOf root parent).cancelled⟩, depth, 0⟩
    rw [absent] at counts
    simp only [Option.filter_none, Option.toList_none, List.length_nil, Nat.add_zero] at counts
    rw [counts, sound.running]
    rfl
  · intro id child held
    rw [SortedMap.get_insert] at held
    by_cases same : id = book.next + 1
    · rw [if_pos same, Option.some.injEq] at held
      subst held
      rw [same]
      exact List.mem_cons_self
    · rw [if_neg same] at held
      exact sound.own id child held
  · intro id child held above ended below holds final
    rw [SortedMap.get_insert] at held holds
    -- The new child runs, so whoever has ended is an older one.
    have older : above ≠ book.next + 1 := by
      intro same
      rw [if_pos same, Option.some.injEq] at holds
      rw [← holds] at final
      contradiction
    rw [if_neg older] at holds
    by_cases same : id = book.next + 1
    · rw [if_pos same, Option.some.injEq] at held
      subst held
      have inherited := (List.mem_cons.mp below).resolve_left older
      cases parent with
      | none => simp [stopOf] at inherited
      | some parentId =>
          cases known : book.children.get parentId with
          | none => simp [stopOf, known] at inherited
          | some parentChild =>
              simp only [stopOf, known] at inherited ⊢
              exact sound.stops parentId parentChild known above ended inherited holds final
    · rw [if_neg same] at held
      exact sound.stops id child held above ended below holds final

theorem ends (id : Nat) {status : Status} (final : status.isFinal = true) :
    (book.ends id status).1.Sound := by
  rcases book.ends_cases id status with same | ⟨child, held, runs, moved⟩
  · rw [same]
    exact sound
  · rw [moved]
    have member : id ∈ (book.children.map (Child.cancelledBy id)).keys := by
      rw [SortedMap.keys_map]
      exact (book.children.mem_keys_iff id).mpr (by rw [held]; rfl)
    have found : ∀ other known,
        ((book.children.map (Child.cancelledBy id)).insert id
          { child.cancelledBy id with status := status }).get other = some known →
        ∃ old, book.children.get other = some old ∧ known.stop = (old.cancelledBy id).stop ∧
          (other ≠ id → known.status = old.status) := by
      intro other known reads
      rw [SortedMap.get_insert, SortedMap.get_map] at reads
      by_cases same : other = id
      · rw [if_pos same, Option.some.injEq] at reads
        exact ⟨child, by rw [same, held], by rw [← reads], fun other => absurd same other⟩
      · rw [if_neg same, Option.map_eq_some_iff] at reads
        obtain ⟨old, at_old, rfl⟩ := reads
        exact ⟨old, at_old, rfl, fun _ => status_cancelledBy id old⟩
    refine ⟨sound.next, ?_, ?_, ?_, sound.limited, ?_, ?_⟩
    · rw [SortedMap.keys_insert_of_mem _ _ member, SortedMap.keys_map]
      exact sound.keys
    · have counts := SortedMap.countP_insert isRunning (book.children.map (Child.cancelledBy id))
        id { child.cancelledBy id with status := status }
      have running : isRunning (child.cancelledBy id) = true := by simp [isRunning, runs]
      have ended : isRunning { child.cancelledBy id with status := status } = false := by
        simp [isRunning, final]
      have unchanged : (book.children.map (Child.cancelledBy id)).values.countP isRunning =
          book.children.values.countP isRunning := by
        rw [SortedMap.values_map, List.countP_map]
        congr 1
        funext known
        simp [isRunning]
      rw [SortedMap.get_map, held, Option.map_some, Option.filter_some, if_pos running,
        unchanged, ended] at counts
      simp only [Option.toList_some, List.length_singleton, Bool.false_eq_true, if_false] at counts
      have held_count := sound.running
      simp only
      omega
    · exact Nat.le_trans (Nat.sub_le _ _) sound.capped
    · intro other known reads
      obtain ⟨old, at_old, stop, _⟩ := found other known reads
      rw [stop, lineage_cancelledBy]
      exact sound.own other old at_old
    · intro other known reads above ended below holds ended_final
      obtain ⟨old, at_old, stop, _⟩ := found other known reads
      obtain ⟨before, at_before, _, status_kept⟩ := found above ended holds
      rw [stop, lineage_cancelledBy] at below
      rw [stop]
      by_cases same : above = id
      · rw [same] at below
        exact cancelled_cancelledBy below
      · rw [status_kept same] at ended_final
        exact cancelled_of_cancelled id
          (sound.stops other old at_old above before below at_before ended_final)

theorem called (id : Nat) : (book.called id).Sound := by
  unfold Book.called
  cases held : book.children.get id with
  | none => exact sound
  | some child =>
      simp only
      have member : id ∈ book.children.keys :=
        (book.children.mem_keys_iff id).mpr (by rw [held]; rfl)
      have found : ∀ other known,
          (book.children.insert id { child with calls := child.calls + 1 }).get other =
            some known →
          ∃ old, book.children.get other = some old ∧ known.stop = old.stop ∧
            known.status = old.status := by
        intro other known reads
        rw [SortedMap.get_insert] at reads
        by_cases same : other = id
        · rw [if_pos same, Option.some.injEq] at reads
          exact ⟨child, by rw [same, held], by rw [← reads], by rw [← reads]⟩
        · rw [if_neg same] at reads
          exact ⟨known, reads, rfl, rfl⟩
      refine ⟨sound.next, ?_, ?_, sound.capped, sound.limited, ?_, ?_⟩
      · rw [SortedMap.keys_insert_of_mem _ _ member]
        exact sound.keys
      · have counts := SortedMap.countP_insert isRunning book.children id
          { child with calls := child.calls + 1 }
        have same : isRunning { child with calls := child.calls + 1 } = isRunning child := rfl
        rw [held, Option.filter_some, same] at counts
        have held_count := sound.running
        by_cases runs : isRunning child = true
        · simp only [runs, if_true, Option.toList_some, List.length_singleton] at counts
          simp only
          omega
        · simp only [runs, Bool.false_eq_true, if_false, Option.toList_none, List.length_nil]
            at counts
          simp only
          omega
      · intro other known reads
        obtain ⟨old, at_old, stop, _⟩ := found other known reads
        rw [stop]
        exact sound.own other old at_old
      · intro other known reads above ended below holds final
        obtain ⟨old, at_old, stop, _⟩ := found other known reads
        obtain ⟨before, at_before, _, status⟩ := found above ended holds
        rw [stop] at below ⊢
        rw [status] at final
        exact sound.stops other old at_old above before below at_before final

theorem cancelAll : book.cancelAll.Sound := by
  refine ⟨sound.next, ?_, ?_, sound.capped, sound.limited, ?_, ?_⟩
  · rw [Book.cancelAll, SortedMap.keys_map]
    exact sound.keys
  · rw [Book.cancelAll, SortedMap.values_map, List.countP_map]
    exact sound.running
  · intro id child held
    rw [Book.cancelAll, SortedMap.get_map, Option.map_eq_some_iff] at held
    obtain ⟨old, at_old, rfl⟩ := held
    exact sound.own id old at_old
  · intro id child held above ended below holds final
    rw [Book.cancelAll, SortedMap.get_map, Option.map_eq_some_iff] at held
    obtain ⟨old, at_old, rfl⟩ := held
    rfl

end Book.Sound

/-! ## An ended child stays as it ended -/

/-- Whatever of `book` has ended is in `later` as it ended; only its calls may
be counted on. -/
def Book.Frozen (book later : Book) : Prop :=
  ∀ id child, book.children.get id = some child → child.status.isFinal = true →
    ∃ calls, child.calls ≤ calls ∧ later.children.get id = some { child with calls := calls }

def Book.Keeps (id : Nat) (book later : Book) : Prop :=
  ∀ child, book.children.get id = some child → child.status.isFinal = true →
    later.children.get id = some child

theorem Book.Frozen.refl (book : Book) : book.Frozen book :=
  fun _ child held _ => ⟨child.calls, Nat.le_refl _, held⟩

theorem Book.Frozen.trans {first second third : Book} (one : first.Frozen second)
    (two : second.Frozen third) : first.Frozen third := by
  intro id child held final
  obtain ⟨calls, more, then_held⟩ := one id child held final
  obtain ⟨last, still_more, last_held⟩ := two id _ then_held final
  exact ⟨last, Nat.le_trans more still_more, last_held⟩

theorem Book.Frozen.of_keeps {book later : Book} (keeps : ∀ id, book.Keeps id later) :
    book.Frozen later :=
  fun id child held final => ⟨child.calls, Nat.le_refl _, keeps id child held final⟩

theorem Book.Keeps.trans {id : Nat} {first second third : Book} (one : first.Keeps id second)
    (two : second.Keeps id third) : first.Keeps id third :=
  fun child held final => two child (one child held final) final

namespace Book.Sound

variable {book : Book} (sound : book.Sound)

include sound

theorem reserve_keeps {depth : Nat} {parent : Stop} {next : Book} {fresh : Nat}
    (reserved : book.reserve depth parent = .ok (next, fresh)) (id : Nat) :
    book.Keeps id next := by
  intro child held _
  obtain ⟨_, _, rfl, rfl⟩ := Book.reserve_ok reserved
  have below := (sound.held_le held).2
  have other : id ≠ book.next + 1 := by
    rw [sound.next]
    omega
  rw [SortedMap.get_insert, if_neg other]
  exact held

theorem ends_keeps (ended : Nat) (status : Status) (id : Nat) :
    book.Keeps id (book.ends ended status).1 := by
  intro child held final
  rcases book.ends_cases ended status with same | ⟨ending, at_ending, runs, moved⟩
  · rw [same]
    exact held
  · have other : id ≠ ended := by
      rintro rfl
      rw [held, Option.some.injEq] at at_ending
      rw [at_ending, runs] at final
      contradiction
    rw [moved, SortedMap.get_insert, if_neg other, SortedMap.get_map, held, Option.map_some,
      cancelledBy_of_cancelled ended (sound.stopped held final)]

theorem cancelAll_keeps (id : Nat) : book.Keeps id book.cancelAll := by
  intro child held final
  have cancelled := sound.stopped held final
  rw [Book.cancelAll, SortedMap.get_map, held, Option.map_some, ← cancelled]

end Book.Sound

theorem Book.called_keeps (book : Book) {called id : Nat} (other : id ≠ called) :
    book.Keeps id (book.called called) := by
  intro child held _
  unfold Book.called
  cases book.children.get called with
  | none => exact held
  | some known =>
      simp only
      rw [SortedMap.get_insert, if_neg other]
      exact held

theorem Book.called_frozen (book : Book) (called : Nat) : book.Frozen (book.called called) := by
  intro id child held final
  by_cases same : id = called
  · subst same
    refine ⟨child.calls + 1, Nat.le_succ _, ?_⟩
    rw [Book.called, held]
    simp only
    rw [SortedMap.get_insert, if_pos rfl]
  · exact ⟨child.calls, Nat.le_refl _, book.called_keeps same child held final⟩

/-! ## Runs -/

structure Registry.Sound (s : Registry) : Prop where
  book : s.book.Sound
  issued : ((s.reserved ++ s.requests).map Start.id).Perm s.book.children.keys

theorem Registry.sound_new : Registry.new.Sound := ⟨Book.sound_empty, List.Perm.refl _⟩

theorem Registry.interrupt_book (s : Registry) (id : Nat) :
    (s.interrupt id).1 = s ∨
      (s.interrupt id).1 = { s with book := (s.book.ends id .interrupted).1 } := by
  unfold Registry.interrupt
  cases s.book.children.get id with
  | none => exact .inl rfl
  | some child => exact .inr rfl

theorem Book.keys_ends (book : Book) (id : Nat) (status : Status) :
    (book.ends id status).1.children.keys = book.children.keys := by
  rcases book.ends_cases id status with same | ⟨child, held, _, moved⟩
  · rw [same]
  · have member : id ∈ (book.children.map (Child.cancelledBy id)).keys := by
      rw [SortedMap.keys_map]
      exact (book.children.mem_keys_iff id).mpr (by rw [held]; rfl)
    rw [moved, SortedMap.keys_insert_of_mem _ _ member, SortedMap.keys_map]

theorem Book.keys_called (book : Book) (id : Nat) :
    (book.called id).children.keys = book.children.keys := by
  unfold Book.called
  cases held : book.children.get id with
  | none => rfl
  | some child =>
      exact SortedMap.keys_insert_of_mem _ _
        ((book.children.mem_keys_iff id).mpr (by rw [held]; rfl))

theorem Registry.Sound.sound_ended {s : Registry} (sound : s.Sound) (id : Nat) {status : Status}
    (final : status.isFinal = true) :
    Registry.Sound { s with book := (s.book.ends id status).1 } := by
  refine ⟨sound.book.ends id final, ?_⟩
  rw [Book.keys_ends]
  exact sound.issued

theorem Registry.Sound.sound_start {s : Registry} (sound : s.Sound) (depth : Nat) (task : String)
    (selection : List String) (parent : Option Nat) :
    (s.start depth task selection parent).1.Sound := by
  unfold Registry.start
  cases reserved : s.book.reserve depth (s.book.stopOf s.stopped parent) with
  | error code => exact sound
  | ok made =>
      obtain ⟨book, id⟩ := made
      refine ⟨sound.book.reserve reserved, ?_⟩
      have keys : book.children.keys = s.book.children.keys ++ [id] := by
        obtain ⟨_, _, rfl, rfl⟩ := Book.reserve_ok reserved
        refine SortedMap.keys_insert_last _ _ fun other member => ?_
        rw [sound.book.keys, List.mem_range'_1] at member
        have := sound.book.next
        omega
      simp only
      rw [keys, List.append_assoc, List.map_append, List.map_append, List.map_singleton,
        List.singleton_append]
      refine List.perm_middle.trans ?_
      refine (List.Perm.cons id ?_).trans (List.perm_append_singleton id _).symm
      rw [← List.map_append]
      exact sound.issued

theorem Registry.Sound.sound_asked {s : Registry} (sound : s.Sound) (n : Nat) :
    (s.asked n).Sound := by
  unfold Registry.asked
  cases held : s.reserved[n]? with
  | none => exact sound
  | some start =>
      refine ⟨sound.book, ?_⟩
      obtain ⟨inside, at_start⟩ := List.getElem?_eq_some_iff.mp held
      have moved : (s.reserved.eraseIdx n ++ (s.requests ++ [start])).Perm
          (s.reserved ++ s.requests) := by
        have taken : (start :: s.reserved.eraseIdx n).Perm s.reserved := by
          rw [← at_start]
          exact List.getElem_cons_eraseIdx_perm inside
        rw [← List.append_assoc]
        refine (List.perm_append_singleton start _).trans ?_
        rw [← List.cons_append]
        exact taken.append_right _
      exact (moved.map Start.id).trans sound.issued

theorem Registry.Sound.sound_step (scrub : String → String) {s : Registry} (sound : s.Sound)
    (event : Event) : (s.step scrub event).Sound ∧ s.book.Frozen (s.step scrub event).book ∧
      ∀ id, event ≠ .called id → s.book.Keeps id (s.step scrub event).book := by
  have quiet : ∀ {next : Registry}, next.Sound → (∀ id, s.book.Keeps id next.book) →
      next.Sound ∧ s.book.Frozen next.book ∧ ∀ id, event ≠ .called id →
        s.book.Keeps id next.book :=
    fun held keeps => ⟨held, Book.Frozen.of_keeps keeps, fun id _ => keeps id⟩
  have same : ∀ id, s.book.Keeps id s.book := fun _ _ held _ => held
  cases event with
  | start depth task selection parent =>
      refine quiet (sound.sound_start depth task selection parent) ?_
      simp only [Registry.step, Registry.start]
      cases reserved : s.book.reserve depth (s.book.stopOf s.stopped parent) with
      | error code => exact same
      | ok made => exact sound.book.reserve_keeps reserved
  | asked n =>
      refine quiet (sound.sound_asked n) ?_
      simp only [Registry.step, Registry.asked]
      cases s.reserved[n]? with
      | none => exact same
      | some start => exact same
  | interrupt id =>
      simp only [Registry.step]
      rcases s.interrupt_book id with unknown | ended
      · rw [unknown]
        exact quiet sound same
      · rw [ended]
        exact quiet (sound.sound_ended id rfl) (sound.book.ends_keeps id .interrupted)
  | ended id ending =>
      exact quiet (sound.sound_ended id (status_isFinal scrub ending))
        (sound.book.ends_keeps id _)
  | dropped id =>
      exact quiet (sound.sound_ended id rfl) (sound.book.ends_keeps id .interrupted)
  | called id =>
      refine ⟨⟨sound.book.called id, ?_⟩, s.book.called_frozen id, ?_⟩
      · simp only [Registry.step]
        rw [Book.keys_called]
        exact sound.issued
      · intro other differs
        exact s.book.called_keeps fun equal => differs (by rw [equal])
  | stop =>
      refine quiet ⟨sound.book.cancelAll, ?_⟩ sound.book.cancelAll_keeps
      simp only [Registry.step]
      rw [Book.cancelAll, SortedMap.keys_map]
      exact sound.issued

structure Registry.Counted (s : Registry) : Prop where
  running : s.book.running = s.book.children.values.countP isRunning
  capped : s.book.running ≤ childrenRunningMax
  started : s.book.started = s.book.children.size
  limited : s.book.started ≤ childrenPerRunMax
  unique : ((s.reserved ++ s.requests).map Start.id).Nodup
  issued : ((s.reserved ++ s.requests).map Start.id).Perm s.book.children.keys

theorem Registry.Sound.counted {s : Registry} (sound : s.Sound) : s.Counted where
  running := sound.book.running
  capped := sound.book.capped
  started := by
    have length := congrArg List.length sound.book.keys
    rw [List.length_range', SortedMap.keys, List.length_map] at length
    exact length.symm
  limited := sound.book.limited
  unique := sound.issued.nodup_iff.mpr s.book.children.keys_nodup
  issued := sound.issued

theorem Registry.Sound.sound_run (scrub : String → String) {s : Registry} (sound : s.Sound)
    (events : List Event) : (Run.final (Registry.step scrub) s events).Sound ∧
      s.book.Frozen (Run.final (Registry.step scrub) s events).book ∧
      ∀ id, .called id ∉ events →
        s.book.Keeps id (Run.final (Registry.step scrub) s events).book := by
  induction events generalizing s with
  | nil => exact ⟨sound, .refl _, fun _ _ _ held _ => held⟩
  | cons event rest ih =>
      obtain ⟨next_sound, frozen, keeps⟩ := sound.sound_step scrub event
      obtain ⟨last_sound, still_frozen, still_keeps⟩ := ih next_sound
      refine ⟨last_sound, frozen.trans still_frozen, ?_⟩
      intro id uncalled
      rw [List.mem_cons, not_or] at uncalled
      exact (keeps id fun equal => uncalled.1 equal.symm).trans (still_keeps id uncalled.2)

/-- In every state a run reaches the counts are right, and whatever has ended
there stays as it is however the run goes on. -/
theorem registry_kept (scrub : String → String) (events later : List Event) :
    (Run.final (Registry.step scrub) Registry.new events).Counted ∧
      (Run.final (Registry.step scrub) Registry.new events).book.Frozen
        (Run.final (Registry.step scrub) Registry.new (events ++ later)).book ∧
      ∀ id, .called id ∉ later →
        (Run.final (Registry.step scrub) Registry.new events).book.Keeps id
          (Run.final (Registry.step scrub) Registry.new (events ++ later)).book := by
  have reached := (Registry.sound_new.sound_run scrub events).1
  rw [Run.final_append]
  exact ⟨reached.counted, (reached.sound_run scrub later).2⟩

end Agentsfleet.Nested
