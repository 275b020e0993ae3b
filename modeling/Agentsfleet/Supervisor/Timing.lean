import Mathlib.Data.List.Count
import Mathlib.Data.List.Range
import Mathlib.Data.List.Perm.Basic

/-!
# Where a run's time went

The clock a run's frames are read against.  Instants are nanoseconds from any
origin the run's own clock has; they never go back.
-/

set_option autoImplicit false

namespace Agentsfleet.Supervisor

inductive TimedFrame where
  | fleetResponseChunk
  | toolCallStarted (callId : String)
  | toolCallCompleted (callId : String) (ms : Int)
  | other
deriving DecidableEq

structure RunTiming where
  elapsed : Nat
  tools : Nat
  firstChunk : Option Nat
deriving DecidableEq

/-- The clock; `opened` counts the calls started and not yet completed by the id
their frames share. -/
structure RunClock where
  made : Nat
  started : Option Nat
  firstChunk : Option Nat
  opened : List (String × Nat)
  busySince : Option Nat
  busy : Nat
deriving DecidableEq

namespace RunClock

def new (now : Nat) : RunClock := ⟨now, none, none, [], none, 0⟩

def since (clock : RunClock) : Nat := clock.started.getD clock.made

def start (clock : RunClock) (now : Nat) : RunClock :=
  { clock with started := some (clock.started.getD now) }

/-- One more call open under `id`. -/
def opening (id : String) : List (String × Nat) → List (String × Nat)
  | [] => [(id, 1)]
  | (other, count) :: rest =>
      if other = id then (other, count + 1) :: rest else (other, count) :: opening id rest

/-- Closes one open call under `id`; `none` when there is none to close. -/
def close (id : String) : List (String × Nat) → Option (List (String × Nat))
  | [] => none
  | (other, count) :: rest =>
      if other = id then some (if count - 1 = 0 then rest else (other, count - 1) :: rest)
      else (close id rest).map fun left => (other, count) :: left

/-- A completion's own duration, in nanoseconds; none below zero. -/
def ownDuration (ms : Int) : Nat := ms.toNat * 1000000

def note (clock : RunClock) (frame : TimedFrame) (now : Nat) : RunClock :=
  match frame with
  | .fleetResponseChunk =>
      { clock with firstChunk := some (clock.firstChunk.getD (now - clock.since)) }
  | .toolCallStarted id =>
      { clock with
        busySince := if clock.opened = [] then some now else clock.busySince
        opened := opening id clock.opened }
  | .toolCallCompleted id ms =>
      match close id clock.opened with
      | some left =>
          match left, clock.busySince with
          | [], some since =>
              { clock with opened := [], busySince := none, busy := clock.busy + (now - since) }
          | left, _ => { clock with opened := left }
      | none =>
          -- No start frame to pair with: its own duration is all there is.
          if clock.opened = [] then { clock with busy := clock.busy + ownDuration ms } else clock
  | .other => clock

/-- The run's timing as of now; a call still open is counted to here. -/
def read (clock : RunClock) (now : Nat) : RunTiming :=
  { elapsed := now - clock.since
    tools := min (clock.busy + (clock.busySince.map fun since => now - since).getD 0)
      (now - clock.since)
    firstChunk := clock.firstChunk }

end RunClock

/-! ## What happens to a clock -/

inductive ClockAction where
  | start
  | note (frame : TimedFrame)
deriving DecidableEq

structure ClockEvent where
  instant : Nat
  action : ClockAction
deriving DecidableEq

def RunClock.step (clock : RunClock) (event : ClockEvent) : RunClock :=
  match event.action with
  | .start => clock.start event.instant
  | .note frame => clock.note frame event.instant

/-- The instants of a history: none before the clock was made, none after `now`, in order. -/
def InOrder (made now : Nat) (events : List ClockEvent) : Prop :=
  (made :: events.map ClockEvent.instant ++ [now]).Pairwise (· ≤ ·)

/-! ## The calls themselves -/

def ClockEvent.calls (opened : List String) (event : ClockEvent) : List String :=
  match event.action with
  | .note (.toolCallStarted id) => id :: opened
  | .note (.toolCallCompleted id _) => opened.erase id
  | _ => opened

def openCalls (events : List ClockEvent) : List String := events.foldl ClockEvent.calls []

/-- Some call is open throughout the nanosecond that begins at `instant`. -/
def inCall (events : List ClockEvent) (instant : Nat) : Bool :=
  !(openCalls (events.filter fun event => decide (event.instant ≤ instant))).isEmpty

/-- The length of the union of the open-call intervals up to `now`. -/
def unionLength (events : List ClockEvent) (now : Nat) : Nat :=
  (List.range now).countP (inCall events)

def ClockEvent.own (opened : List String) (event : ClockEvent) : Nat :=
  match event.action with
  | .note (.toolCallCompleted _ ms) => if opened = [] then RunClock.ownDuration ms else 0
  | _ => 0

/-- What the completions that came while no call was open took by their own account. -/
def unpaired : List String → List ClockEvent → Nat
  | _, [] => 0
  | opened, event :: rest => event.own opened + unpaired (event.calls opened) rest

/-! ## The union, event by event -/

theorem countP_range_const {holds : Nat → Bool} {from_ upto : Nat} {value : Bool}
    (later : from_ ≤ upto) (constant : ∀ instant, from_ ≤ instant → holds instant = value) :
    (List.range upto).countP holds =
      (List.range from_).countP holds + (upto - from_) * value.toNat := by
  induction upto, later using Nat.le_induction with
  | base => simp
  | succ upto later ih =>
      rw [List.range_succ, List.countP_append, ih, List.countP_singleton, constant upto later]
      have more : upto + 1 - from_ = upto - from_ + 1 := by omega
      rw [more, Nat.add_mul, Nat.add_assoc]
      cases value with
      | false => simp
      | true => simp

theorem countP_range_congr {first second : Nat → Bool} {upto : Nat}
    (same : ∀ instant < upto, first instant = second instant) :
    (List.range upto).countP first = (List.range upto).countP second := by
  apply List.countP_congr
  intro instant member
  rw [same instant (List.mem_range.mp member)]

theorem unionLength_later {events : List ClockEvent} {last now : Nat} (later : last ≤ now)
    (past : ∀ event ∈ events, event.instant ≤ last) :
    unionLength events now =
      unionLength events last + (now - last) * (!(openCalls events).isEmpty).toNat := by
  apply countP_range_const later
  intro instant reached
  have whole : events.filter (fun event => decide (event.instant ≤ instant)) = events := by
    apply List.filter_eq_self.mpr
    intro event member
    exact decide_eq_true (Nat.le_trans (past event member) reached)
  rw [inCall, whole]

theorem unionLength_append (events : List ClockEvent) {event : ClockEvent} {now : Nat}
    (before : now ≤ event.instant) :
    unionLength (events ++ [event]) now = unionLength events now := by
  apply countP_range_congr
  intro instant early
  have apart : decide (event.instant ≤ instant) = false := decide_eq_false (by omega)
  rw [inCall, inCall, List.filter_append, List.filter_cons, apart, List.filter_nil,
    if_neg Bool.false_ne_true, List.append_nil]

theorem unionLength_nil (now : Nat) : unionLength [] now = 0 := by
  apply List.countP_eq_zero.mpr
  intro instant _
  exact Bool.false_ne_true

theorem openCalls_append (events : List ClockEvent) (event : ClockEvent) :
    openCalls (events ++ [event]) = event.calls (openCalls events) := by
  rw [openCalls, List.foldl_append]
  rfl

theorem unpaired_append (opened : List String) (events : List ClockEvent) (event : ClockEvent) :
    unpaired opened (events ++ [event]) =
      unpaired opened events + event.own (events.foldl ClockEvent.calls opened) := by
  induction events generalizing opened with
  | nil => rw [List.nil_append, unpaired, unpaired, unpaired, Nat.zero_add, Nat.add_zero,
      List.foldl_nil]
  | cons first rest ih =>
      rw [List.cons_append, unpaired, ih, unpaired, List.foldl_cons, Nat.add_assoc]

/-! ## Counted calls -/

namespace RunClock

def counted (opened : List (String × Nat)) : List String :=
  opened.flatMap fun entry => List.replicate entry.2 entry.1

def Positive (opened : List (String × Nat)) : Prop := ∀ entry ∈ opened, 1 ≤ entry.2

theorem counted_eq_nil {opened : List (String × Nat)} (positive : Positive opened) :
    counted opened = [] ↔ opened = [] := by
  cases opened with
  | nil => exact ⟨fun _ => rfl, fun _ => rfl⟩
  | cons first rest =>
      have some_ := positive first List.mem_cons_self
      refine ⟨fun empty => ?_, fun empty => nomatch empty⟩
      rw [counted, List.flatMap_cons, List.append_eq_nil_iff, List.replicate_eq_nil_iff] at empty
      omega

theorem opening_counted (id : String) (opened : List (String × Nat)) :
    (counted (opening id opened)).Perm (id :: counted opened) := by
  induction opened with
  | nil => exact List.Perm.refl _
  | cons first rest ih =>
      obtain ⟨other, count⟩ := first
      rw [opening]
      by_cases same : other = id
      · subst same
        rw [if_pos rfl]
        exact List.Perm.refl _
      · rw [if_neg same, counted, List.flatMap_cons, counted, List.flatMap_cons]
        exact (List.Perm.append_left _ ih).trans List.perm_middle

theorem opening_positive {id : String} {opened : List (String × Nat)}
    (positive : Positive opened) : Positive (opening id opened) := by
  induction opened with
  | nil =>
      intro entry member
      rw [List.mem_singleton.mp member]
  | cons first rest ih =>
      obtain ⟨here, others⟩ := List.forall_mem_cons.mp positive
      rw [opening]
      split
      · exact List.forall_mem_cons.mpr ⟨Nat.le_add_left 1 _, others⟩
      · exact List.forall_mem_cons.mpr ⟨here, ih others⟩

theorem opening_ne_nil (id : String) (opened : List (String × Nat)) : opening id opened ≠ [] := by
  cases opened with
  | nil => exact List.cons_ne_nil _ _
  | cons first rest =>
      rw [opening]
      split
      · exact List.cons_ne_nil _ _
      · exact List.cons_ne_nil _ _

theorem close_counted {opened : List (String × Nat)} (positive : Positive opened) (id : String) :
    match close id opened with
    | none => id ∉ counted opened
    | some left => Positive left ∧ (counted left).Perm ((counted opened).erase id) := by
  induction opened with
  | nil => exact List.not_mem_nil
  | cons first rest ih =>
      obtain ⟨other, count⟩ := first
      obtain ⟨here, others⟩ := List.forall_mem_cons.mp positive
      obtain ⟨more, rfl⟩ := Nat.exists_eq_add_of_le' here
      rw [close]
      by_cases same : other = id
      · subst same
        rw [if_pos rfl]
        have erased : (counted ((other, more + 1) :: rest)).erase other =
            List.replicate more other ++ counted rest := by
          rw [counted, List.flatMap_cons, List.replicate_succ, List.cons_append,
            List.erase_cons_head]
          rfl
        dsimp only
        rw [erased, Nat.add_sub_cancel]
        by_cases last : more = 0
        · rw [if_pos last, last]
          exact ⟨others, List.Perm.refl _⟩
        · rw [if_neg last]
          refine ⟨List.forall_mem_cons.mpr ⟨?_, others⟩, List.Perm.refl _⟩
          exact Nat.one_le_iff_ne_zero.mpr last
      · rw [if_neg same]
        have apart : id ∉ List.replicate (more + 1) other :=
          fun member => same (List.eq_of_mem_replicate member).symm
        have whole : counted ((other, more + 1) :: rest) =
            List.replicate (more + 1) other ++ counted rest := by
          rw [counted, List.flatMap_cons]
          rfl
        have kept := ih others
        cases closed : close id rest with
        | none =>
            rw [closed] at kept
            rw [Option.map_none]
            dsimp only at kept ⊢
            rw [whole, List.mem_append]
            exact fun member => member.elim apart kept
        | some left =>
            rw [closed] at kept
            rw [Option.map_some]
            dsimp only at kept ⊢
            rw [whole, List.erase_append_right _ apart]
            refine ⟨List.forall_mem_cons.mpr ⟨here, kept.1⟩, ?_⟩
            rw [counted, List.flatMap_cons]
            exact List.Perm.append_left _ kept.2

/-! ## The clock keeps the union -/

/-- What a clock has of its history, all of it by `last`. -/
structure Follows (clock : RunClock) (events : List ClockEvent) (last : Nat) : Prop where
  positive : Positive clock.opened
  counts : (counted clock.opened).Perm (openCalls events)
  stretch : clock.busySince = none ↔ clock.opened = []
  begun : ∀ since, clock.busySince = some since → since ≤ last
  past : ∀ event ∈ events, event.instant ≤ last
  busy : clock.busy + (clock.busySince.map fun since => last - since).getD 0 =
    unionLength events last + unpaired [] events

theorem follows_new (made : Nat) : (new made).Follows [] made := by
  constructor
  · exact fun _ member => absurd member List.not_mem_nil
  · exact List.Perm.refl _
  · exact ⟨fun _ => rfl, fun _ => rfl⟩
  · exact fun _ busy => nomatch busy
  · exact fun _ member => absurd member List.not_mem_nil
  · rw [unionLength_nil]
    rfl

namespace Follows

variable {clock : RunClock} {events : List ClockEvent} {last now : Nat}

theorem openCalls_eq_nil (follows : clock.Follows events last) :
    openCalls events = [] ↔ clock.opened = [] := by
  rw [← counted_eq_nil follows.positive]
  constructor
  · intro none
    exact List.perm_nil.mp (none ▸ follows.counts)
  · intro none
    exact List.nil_perm.mp (none ▸ follows.counts)

/-- Time passes: an open stretch grows as the union does. -/
theorem later (follows : clock.Follows events last) (later : last ≤ now) :
    clock.Follows events now := by
  refine ⟨follows.positive, follows.counts, follows.stretch,
    fun since busy => Nat.le_trans (follows.begun since busy) later,
    fun event member => Nat.le_trans (follows.past event member) later, ?_⟩
  have before := follows.busy
  rw [unionLength_later later follows.past]
  cases stretch : clock.busySince with
  | none =>
      rw [stretch] at before
      have idle := follows.openCalls_eq_nil.mpr (follows.stretch.mp stretch)
      simp only [Option.map_none, Option.getD_none] at before ⊢
      rw [idle, List.isEmpty_nil, Bool.not_true, Bool.toNat_false]
      omega
  | some since =>
      rw [stretch] at before
      have busy : openCalls events ≠ [] := by
        intro none
        rw [follows.stretch.mpr (follows.openCalls_eq_nil.mp none)] at stretch
        cases stretch
      have begun := follows.begun since stretch
      simp only [Option.map_some, Option.getD_some] at before ⊢
      rw [List.isEmpty_eq_false_iff.mpr busy, Bool.not_false, Bool.toNat_true]
      omega

theorem past_append (follows : clock.Follows events now) {event : ClockEvent}
    (here : event.instant = now) : ∀ other ∈ events ++ [event], other.instant ≤ now := by
  intro other member
  rcases List.mem_append.mp member with before | same
  · exact follows.past other before
  · rw [List.mem_singleton.mp same, here]

theorem accounted (follows : clock.Follows events now) {event : ClockEvent}
    (here : event.instant = now) :
    unionLength (events ++ [event]) now + unpaired [] (events ++ [event]) =
      clock.busy + (clock.busySince.map fun since => now - since).getD 0 +
        event.own (openCalls events) := by
  rw [unionLength_append events (Nat.le_of_eq here.symm), unpaired_append, follows.busy,
    Nat.add_assoc]
  rfl

theorem idle (follows : clock.Follows events now) {event : ClockEvent}
    (here : event.instant = now) (calls : event.calls (openCalls events) = openCalls events)
    {after : RunClock} (opened : after.opened = clock.opened)
    (stretch : after.busySince = clock.busySince)
    (busy : after.busy = clock.busy + event.own (openCalls events)) :
    after.Follows (events ++ [event]) now := by
  constructor
  · rw [opened]
    exact follows.positive
  · rw [opened, openCalls_append, calls]
    exact follows.counts
  · rw [opened, stretch]
    exact follows.stretch
  · rw [stretch]
    exact follows.begun
  · exact follows.past_append here
  · rw [follows.accounted here, stretch, busy]
    omega

theorem started (follows : clock.Follows events now) (id : String) :
    (clock.note (.toolCallStarted id) now).Follows
      (events ++ [⟨now, .note (.toolCallStarted id)⟩]) now := by
  constructor
  · exact opening_positive follows.positive
  · rw [openCalls_append]
    exact (opening_counted id clock.opened).trans (List.Perm.cons id follows.counts)
  · refine ⟨fun none => ?_, fun none => absurd none (opening_ne_nil id clock.opened)⟩
    dsimp only [note] at none
    split at none
    · cases none
    · rename_i some_
      exact absurd (follows.stretch.mp none) some_
  · intro since busy
    dsimp only [note] at busy
    split at busy
    · cases busy
      exact Nat.le_refl now
    · exact follows.begun since busy
  · exact follows.past_append rfl
  · rw [follows.accounted rfl]
    dsimp only [note, ClockEvent.own]
    split
    · rename_i empty
      rw [follows.stretch.mpr empty, Option.map_some, Option.map_none, Option.getD_some,
        Option.getD_none, Nat.sub_self]
    · rfl

theorem completed (follows : clock.Follows events now) (id : String) (ms : Int) :
    (clock.note (.toolCallCompleted id ms) now).Follows
      (events ++ [⟨now, .note (.toolCallCompleted id ms)⟩]) now := by
  have counts := close_counted follows.positive id
  cases closed : close id clock.opened with
  | none =>
      rw [closed] at counts
      have absent : (ClockEvent.mk now (.note (.toolCallCompleted id ms))).calls
          (openCalls events) = openCalls events :=
        List.erase_of_not_mem fun member => counts (follows.counts.mem_iff.mpr member)
      by_cases empty : clock.opened = []
      · refine follows.idle rfl absent ?_ ?_ ?_
        · simp only [note, closed, if_pos empty]
        · simp only [note, closed, if_pos empty]
        · simp only [note, closed, if_pos empty, ClockEvent.own,
            if_pos (follows.openCalls_eq_nil.mpr empty)]
      · refine follows.idle rfl absent ?_ ?_ ?_
        · simp only [note, closed, if_neg empty]
        · simp only [note, closed, if_neg empty]
        · simp only [note, closed, if_neg empty, ClockEvent.own,
            if_neg fun none => empty (follows.openCalls_eq_nil.mp none), Nat.add_zero]
  | some left =>
      rw [closed] at counts
      obtain ⟨positive, fewer⟩ := counts
      have some_ : clock.opened ≠ [] := by
        intro empty
        rw [empty] at closed
        cases closed
      have busy : openCalls events ≠ [] := fun none => some_ (follows.openCalls_eq_nil.mp none)
      obtain ⟨since, stretch⟩ := Option.ne_none_iff_exists'.mp
        fun none => some_ (follows.stretch.mp none)
      have ended : (counted left).Perm ((openCalls events).erase id) :=
        fewer.trans (follows.counts.erase id)
      have account :=
        @Follows.accounted _ _ _ follows ⟨now, .note (.toolCallCompleted id ms)⟩ rfl
      simp only [stretch, Option.map_some, Option.getD_some, ClockEvent.own, if_neg busy,
        Nat.add_zero] at account
      cases left with
      | nil =>
          have noted : clock.note (.toolCallCompleted id ms) now =
              { clock with
                opened := []
                busySince := none
                busy := clock.busy + (now - since) } := by
            simp only [note, closed, stretch]
          rw [noted]
          refine ⟨positive, ?_, ⟨fun _ => rfl, fun _ => rfl⟩, fun _ busy => (nomatch busy),
            follows.past_append rfl, account.symm⟩
          rw [openCalls_append]
          exact ended
      | cons first rest =>
          have noted : clock.note (.toolCallCompleted id ms) now =
              { clock with opened := first :: rest } := by
            simp only [note, closed]
          rw [noted]
          refine ⟨positive, ?_, ?_, follows.begun, follows.past_append rfl, ?_⟩
          · rw [openCalls_append]
            exact ended
          · rw [stretch]
            exact ⟨fun none => (nomatch none), fun none => (nomatch none)⟩
          · rw [account, stretch]
            rfl

theorem step (follows : clock.Follows events now) (action : ClockAction) :
    (clock.step ⟨now, action⟩).Follows (events ++ [⟨now, action⟩]) now := by
  cases action with
  | start => exact follows.idle rfl rfl rfl rfl rfl
  | note frame =>
      cases frame with
      | fleetResponseChunk => exact follows.idle rfl rfl rfl rfl rfl
      | toolCallStarted id => exact follows.started id
      | toolCallCompleted id ms => exact follows.completed id ms
      | other => exact follows.idle rfl rfl rfl rfl rfl

end Follows

def after (made : Nat) (events : List ClockEvent) : RunClock := events.foldl step (new made)

theorem after_follows {made now : Nat} {events : List ClockEvent}
    (order : InOrder made now events) : (after made events).Follows events now := by
  induction events using List.reverseRecOn generalizing now with
  | nil =>
      have first : made ≤ now := List.rel_of_pairwise_cons order List.mem_cons_self
      exact (follows_new made).later first
  | append_singleton events event ih =>
      rw [InOrder, List.map_append, List.map_cons, List.map_nil] at order
      have parts := List.pairwise_append.mp order
      have last : event.instant ≤ now := by
        apply parts.2.2 event.instant _ now List.mem_cons_self
        exact List.mem_cons_of_mem _ (List.mem_append_right _ List.mem_cons_self)
      have before : InOrder made event.instant events := parts.1
      have followed := ((ih before).step event.action).later last
      rw [after, List.foldl_append]
      exact followed

theorem unionLength_le (events : List ClockEvent) (first now : Nat) :
    unionLength events now ≤ unionLength events first + (now - first) := by
  rcases Nat.le_total now first with early | later
  · have fewer : (List.range now).Sublist (List.range first) := List.range_sublist.mpr early
    exact Nat.le_add_right_of_le (fewer.countP_le)
  · obtain ⟨more, rfl⟩ := Nat.exists_eq_add_of_le later
    rw [unionLength, List.range_add, List.countP_append, Nat.add_sub_cancel_left]
    have most := @List.countP_le_length _ (inCall events) ((List.range more).map (first + ·))
    rw [List.length_map, List.length_range] at most
    exact Nat.add_le_add_left most _

/-- The tool time is the union of the open calls' intervals and what the completions that came
while no call was open took by their own account, cut at the elapsed time: so never more, and the
union itself when there was no such time to add and no call opened before the run started. -/
theorem tool_time (made now : Nat) (events : List ClockEvent) (order : InOrder made now events) :
    ((after made events).read now).tools =
        min (unionLength events now + unpaired [] events) ((after made events).read now).elapsed ∧
      ((after made events).read now).tools ≤ ((after made events).read now).elapsed ∧
      (unpaired [] events = 0 → unionLength events (after made events).since = 0 →
        ((after made events).read now).tools = unionLength events now) := by
  have total := (after_follows order).busy
  have read : ((after made events).read now).tools =
      min (unionLength events now + unpaired [] events) (now - (after made events).since) := by
    rw [← total]
    rfl
  refine ⟨read, Nat.min_le_right _ _, fun paired within => ?_⟩
  have most := unionLength_le events (after made events).since now
  rw [read, paired, Nat.add_zero, Nat.min_eq_left (by omega)]

def overlapping : List ClockEvent :=
  [⟨2, .start⟩, ⟨3, .note (.toolCallStarted "1")⟩, ⟨4, .note (.toolCallStarted "1")⟩,
    ⟨6, .note (.toolCallCompleted "1" 1)⟩, ⟨7, .note (.toolCallCompleted "1" 1)⟩]

theorem tool_time_overlapping : ((after 0 overlapping).read 9).tools = 4 := by
  have union : unionLength overlapping 9 = 4 := by decide
  rw [← union]
  refine (tool_time 0 9 overlapping ?_).2.2 (by decide) (by decide)
  rw [InOrder]
  decide

/-- A completion no start frame paired counts its own duration. -/
theorem unpaired_counted :
    InOrder 0 9 [⟨2, .note (.toolCallCompleted "1" 1)⟩] ∧
      ((after 0 [⟨2, .note (.toolCallCompleted "1" 1)⟩]).read 9).tools ≠
        unionLength [⟨2, .note (.toolCallCompleted "1" 1)⟩] 9 := by
  refine ⟨?_, by decide⟩
  rw [InOrder]
  decide

end RunClock

end Agentsfleet.Supervisor
