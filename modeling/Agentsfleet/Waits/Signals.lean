import Agentsfleet.Waits.System

/-!
# No signal is lost

What holds of the waits over any run of the system: a signal that came after a
claim's reading outlives that claim's observation, and a wait is consumed once,
by whoever holds it.
-/

set_option autoImplicit false

namespace Agentsfleet.Waits

open Agentsfleet.Core
open Agentsfleet.Library
open Agentsfleet.Library.Run
open Agentsfleet.Task

/-! ## What every state has -/

structure Good (system : System) : Prop where
  apart : (system.store.waits.map WaitRow.id).Nodup
  minted : ∀ row ∈ system.store.waits, row.id ∈ system.minted
  observed : ∀ row ∈ system.store.waits, row.observedSignalSequence ≤ row.signalSequence
  read : ∀ held ∈ system.claimed, held.owner.row.id ∈ system.minted ∧
    ∀ row ∈ system.store.waits, row.id = held.owner.row.id →
      held.owner.row.signalSequence ≤ row.signalSequence

theorem Good.same {system : System} (good : Good system) {first second : WaitRow}
    (left : first ∈ system.store.waits) (right : second ∈ system.store.waits)
    (ids : first.id = second.id) : first = second :=
  List.inj_on_of_nodup_map good.apart left right ids

theorem good_start : Good System.start := by
  constructor
  · exact List.nodup_nil
  · exact fun _ member => absurd member List.not_mem_nil
  · exact fun _ member => absurd member List.not_mem_nil
  · exact fun _ member => absurd member List.not_mem_nil

variable {digest : Snapshot → String}

theorem Follows.row {system after : System} {event : Event}
    (follows : Follows digest system event after) {row : WaitRow}
    (member : row ∈ after.store.waits) :
    (∃ old ∈ system.store.waits,
      old.Ages system.claimed (Wakes digest system event) row) ∨
    row.id ∈ after.minted ∧ row.id ∉ system.minted ∧
      row.signalSequence = 0 ∧ row.observedSignalSequence = 0 := by
  obtain ⟨kept, keeps, rows | ⟨added, rows, minted, fresh, signals, observed⟩⟩ := follows.rows
  · exact .inl (keeps.ages row (rows ▸ member))
  · rw [rows, List.mem_append, List.mem_singleton] at member
    rcases member with earlier | rfl
    · exact .inl (keeps.ages row earlier)
    · exact .inr ⟨minted, fresh, signals, observed⟩

theorem Good.follows {system after : System} {event : Event} (good : Good system)
    (follows : Follows digest system event after) : Good after := by
  constructor
  · obtain ⟨kept, keeps, rows | ⟨added, rows, -, fresh, -, -⟩⟩ := follows.rows
    · rw [rows]
      exact good.apart.sublist keeps.ids
    · rw [rows, List.map_append, List.map_cons, List.map_nil]
      apply (good.apart.sublist keeps.ids).append (List.nodup_singleton _)
      intro id earlier here
      rw [List.mem_singleton] at here
      obtain ⟨old, member, same⟩ := List.mem_map.mp (keeps.ids.subset earlier)
      exact fresh (here ▸ same ▸ good.minted old member)
  · intro row member
    rcases follows.row member with ⟨old, earlier, ages⟩ | ⟨minted, -⟩
    · rw [ages.id]
      exact follows.minted (good.minted old earlier)
    · exact minted
  · intro row member
    rcases follows.row member with ⟨old, earlier, ages⟩ | ⟨-, -, signals, observed⟩
    · rcases ages.observed with same | ⟨held, claimed, here, same⟩
      · rw [same]
        exact Nat.le_trans (good.observed old earlier) ages.signals
      · rw [same]
        exact Nat.le_trans ((good.read held claimed).2 old earlier here.symm) ages.signals
    · rw [signals, observed]
  · have before : ∀ held : Claimed, held.owner.row.id ∈ system.minted →
        (∀ row ∈ system.store.waits, row.id = held.owner.row.id →
          held.owner.row.signalSequence ≤ row.signalSequence) →
        held.owner.row.id ∈ after.minted ∧ ∀ row ∈ after.store.waits,
          row.id = held.owner.row.id → held.owner.row.signalSequence ≤ row.signalSequence := by
      intro held minted read
      refine ⟨follows.minted minted, fun row member here => ?_⟩
      rcases follows.row member with ⟨old, earlier, ages⟩ | ⟨-, fresh, -⟩
      · exact Nat.le_trans (read old earlier (ages.id ▸ here)) ages.signals
      · exact absurd (here ▸ minted) fresh
    intro held member
    rcases follows.claims with same | ⟨added, same, reads⟩
    · rw [same] at member
      exact before held (good.read held member).1 (good.read held member).2
    · rw [same, List.mem_append, List.mem_singleton] at member
      rcases member with earlier | rfl
      · exact before held (good.read held earlier).1 (good.read held earlier).2
      · apply before held (good.minted _ reads)
        intro row here ids
        rw [good.same here reads ids]

theorem good_step (system : System) (event : Event) (good : Good system) :
    Good (system.step digest event) :=
  good.follows (step_follows system event)

/-! ## What a later state has of an earlier one -/

structure Continues (first second : System) : Prop where
  minted : first.minted ⊆ second.minted
  claimed : first.claimed ⊆ second.claimed
  rows : ∀ row ∈ second.store.waits, row.id ∈ first.minted →
    ∃ old ∈ first.store.waits, old.id = row.id ∧ old.signalSequence ≤ row.signalSequence ∧
      (old.consumed ≠ none → row.consumed ≠ none)

theorem continues_refl (system : System) : Continues system system :=
  ⟨fun _ member => member, fun _ member => member,
    fun row member _ => ⟨row, member, rfl, Nat.le_refl _, id⟩⟩

theorem Continues.trans {first second third : System} (left : Continues first second)
    (right : Continues second third) : Continues first third := by
  refine ⟨fun _ member => right.minted (left.minted member),
    fun _ member => right.claimed (left.claimed member), fun row member minted => ?_⟩
  obtain ⟨middle, inside, ids, signals, consumed⟩ := right.rows row member (left.minted minted)
  obtain ⟨old, earlier, same, fewer, stays⟩ := left.rows middle inside (ids ▸ minted)
  exact ⟨old, earlier, same.trans ids, Nat.le_trans fewer signals, consumed ∘ stays⟩

theorem step_continues (system : System) (event : Event) :
    Continues system (system.step digest event) := by
  have follows : Follows digest system event (system.step digest event) := step_follows system event
  constructor
  · exact follows.minted
  · rcases follows.claims with same | ⟨added, same, -⟩
    · rw [same]
      exact List.Subset.refl _
    · rw [same]
      exact List.subset_append_left _ _
  · intro row member minted
    rcases follows.row member with ⟨old, earlier, ages⟩ | ⟨-, fresh, -⟩
    · refine ⟨old, earlier, ages.id.symm, ages.signals, fun consumed => ?_⟩
      rcases ages.consumed with same | ⟨-, live⟩
      · rw [same]
        exact consumed
      · exact absurd live consumed
    · exact absurd minted fresh

/-! ## Over a run -/

/-- The step made the claim `held`. -/
def Claims (step : Taken System Event) (held : Claimed) : Prop :=
  (∃ candidate id visit, step.event = .claim candidate id visit) ∧
    step.after.claimed = step.before.claimed ++ [held]

/-- The step delivered a signal to the live wait `id`. -/
def Signals (step : Taken System Event) (id : String) : Prop :=
  (∃ completion free readAt clock, step.event = .deliver completion free readAt clock) ∧
    ∃ old ∈ step.before.store.waits, ∃ new ∈ step.after.store.waits,
      old.id = id ∧ new.id = id ∧ old.live = true ∧ old.signalSequence < new.signalSequence

/-- The step recorded the observation of the claim `held`. -/
def Records (digest : Snapshot → String) (step : Taken System Event) (held : Claimed)
    (visit : Visit) : Prop :=
  ∃ index result store, step.event = .finish index result visit ∧
    step.before.claimed[index]? = some held ∧
    step.before.store.finish digest ⟨held.owner, held.claim, result⟩ visit =
      .ok (store, .recorded)

/-- The step consumed the wait `id`. -/
def Consumes (step : Taken System Event) (id : String) : Prop :=
  ∃ old ∈ step.before.store.waits, ∃ new ∈ step.after.store.waits,
    old.id = id ∧ new.id = id ∧ old.consumed = none ∧ new.consumed ≠ none

/-- The step is the finish of the claim that holds the wait `id` and has not run
out, its task still waits where the wait was armed, and the reading it finishes
found the pull request open at the same head. -/
def Held (step : Taken System Event) (id : String) : Prop :=
  ∃ index snapshot visit, step.event = .finish index (.ok snapshot) visit ∧
    ∃ held row claim task, step.before.claimed[index]? = some held ∧
      row ∈ step.before.store.waits ∧ row.id = id ∧ row.live = true ∧
      row.claim = some claim ∧ claim.id = held.claim ∧ visit.readAt < claim.expiresAt ∧
      task ∈ step.before.store.tasks ∧ task.id = row.task ∧ task.status = .waiting ∧
      task.generation = row.taskGeneration ∧ task.stopGeneration = row.stopGeneration ∧
      task.target.head = row.expectedHead ∧
      snapshot.isOpen = true ∧ snapshot.head = row.expectedHead

theorem run_continues {events : List Event} {first second : Taken System Event}
    (order : Earlier (taken (System.step digest) System.start events) first second) :
    Continues first.after second.before :=
  taken_between good_step continues_refl Continues.trans
    (fun system event _ => step_continues system event) good_start order

theorem run_good {events : List Event} {step : Taken System Event}
    (member : step ∈ taken (System.step digest) System.start events) :
    Good step.before ∧ step.after = step.before.step digest step.event :=
  taken_step good_step good_start step member

/-! ### Signals -/

theorem recorded_row {store after : Store} {probe : Probe} {visit : Visit}
    (records : store.finish digest probe visit = .ok (after, .recorded)) :
    ∃ row ∈ store.waits, row.id = probe.owner.row.id ∧ row.live = true ∧
      ∃ checks baseline cooldown backoff,
        row.observe checks baseline probe.owner.row.signalledAt cooldown backoff
          probe.owner.row.signalSequence visit.clock ∈ after.waits := by
  rcases finish_spec digest records with ⟨-, refused⟩ | ⟨owner, read, -, -, holds, applies⟩
  · cases refused
  · obtain ⟨member, same, live, -⟩ := Store.owner_spec read
    rcases apply_spec digest applies with ⟨_, _, -, -, stopped⟩ |
      ⟨snapshot, cooldown, rfl, -⟩ | ⟨_, _, -, -, -, consumed, -⟩
    · cases stopped
    · have picked : owner.row.heldBy owner.row.id probe.claim = true :=
        heldBy_iff.mpr ⟨rfl, holds, live⟩
      refine ⟨owner.row, member, same, live, ?_⟩
      cases snapshot with
      | none =>
          exact ⟨owner.row.checks, owner.row.baselineDigest, cooldown.getD visit.now,
            delay owner.row.fallbackCount,
            Table.mem_update.mpr ⟨owner.row, member, (if_pos picked).symm⟩⟩
      | some snapshot =>
          exact ⟨snapshot.checks, digest snapshot, cooldown.getD visit.now,
            delay owner.row.fallbackCount,
            Table.mem_update.mpr ⟨owner.row, member, (if_pos picked).symm⟩⟩
    · cases consumed

/-- A signal past what the observation answers leaves the row due at once, or when
its cooldown ends. -/
theorem observe_due {row : WaitRow} {checks : List Check} {baseline : String}
    {signalledAt : Option Int} {cooldown backoff : Int} {sequence : Nat} {clock : Int}
    (later : sequence < row.signalSequence) (instant : Int) :
    (row.observe checks baseline signalledAt cooldown backoff sequence clock).due instant = true ↔
      stored clock ≤ instant ∧
        (row.observe checks baseline signalledAt cooldown backoff sequence
          clock).cooldownExpiresAt ≤ instant := by
  simp only [WaitRow.due, WaitRow.observe, if_pos later, stored_max, Bool.and_eq_true,
    decide_eq_true_eq]
  omega

/-! ### Consumption -/

theorem consumes_wakes {system : System} {event : Event} (good : Good system) {id : String}
    (consumes : Consumes ⟨system, event, system.step digest event⟩ id) :
    Wakes digest system event id := by
  obtain ⟨old, earlier, new, later, rfl, ids, live, gone⟩ := consumes
  rcases (step_follows system event).row later with ⟨other, inside, ages⟩ | ⟨-, fresh, -⟩
  · have same : other = old := good.same inside earlier (ages.id.symm.trans ids)
    subst same
    rcases ages.consumed with unchanged | ⟨wakes, -⟩
    · exact absurd (unchanged.trans live) gone
    · exact wakes
  · exact absurd (ids ▸ good.minted old earlier) fresh

theorem Wait.current_spec {wait : Wait} (current : wait.current = true) :
    wait.task.status = .waiting ∧ wait.task.generation = wait.row.taskGeneration ∧
      wait.task.stopGeneration = wait.row.stopGeneration ∧
      wait.task.target.head = wait.row.expectedHead := by
  simp only [Wait.current, Bool.and_eq_true, decide_eq_true_eq] at current
  obtain ⟨⟨⟨⟨⟨⟨status, generation⟩, stop⟩, -⟩, -⟩, -⟩, head⟩ := current
  exact ⟨status, generation.symm, stop.symm, head⟩

theorem wakes_held {system : System} {event : Event} {id : String}
    (wakes : Wakes digest system event id) :
    Held ⟨system, event, system.step digest event⟩ id := by
  obtain ⟨index, result, visit, held, store, rfl, found, here, finishes⟩ := wakes
  rcases finish_spec digest finishes with ⟨-, refused⟩ |
    ⟨owner, read, current, valid, holds, applies⟩
  · cases refused
  · obtain ⟨member, same, live, inside, owned, claimValid⟩ := Store.owner_spec read
    obtain ⟨status, generation, stop, head⟩ := Wait.current_spec current
    rcases apply_spec digest applies with ⟨_, _, -, -, stopped⟩ | ⟨_, _, -, recorded⟩ |
      ⟨snapshot, _, brought, opened, seen, -, -⟩
    · cases stopped
    · cases recorded
    · obtain ⟨claim, claims, named⟩ := Option.map_eq_some_iff.mp holds
      rw [claimValid, claims, Option.map_some, Option.some.injEq, decide_eq_true_eq] at valid
      cases brought
      exact ⟨index, snapshot, visit, rfl, held, owner.row, claim, owner.task, found, member,
        same.trans here, live, claims, named, valid, inside, owned, status, generation, stop, head,
        opened, seen⟩

theorem woken_consumes {system : System} {event : Event} {id : String}
    (wakes : Wakes digest system event id) :
    Consumes ⟨system, event, system.step digest event⟩ id := by
  obtain ⟨index, result, visit, held, store, rfl, found, here, finishes⟩ := wakes
  have stepped : system.step digest (.finish index result visit) =
      { system with store := store } := by
    simp only [System.step, found, finishes]
  rw [stepped]
  rcases finish_spec digest finishes with ⟨-, refused⟩ | ⟨owner, read, -, -, holds, applies⟩
  · cases refused
  · obtain ⟨member, same, live, -⟩ := Store.owner_spec read
    rcases apply_spec digest applies with ⟨_, _, -, -, stopped⟩ | ⟨_, _, -, recorded⟩ |
      ⟨snapshot, admission, -, -, -, -, -, rfl⟩
    · cases stopped
    · cases recorded
    · refine ⟨owner.row, member,
        owner.row.consume admission snapshot.checks (digest snapshot) visit.clock, ?_,
        same.trans here, same.trans here, (WaitRow.live_iff.mp live).1, Option.some_ne_none _⟩
      refine Table.mem_update.mpr ⟨owner.row, member, ?_⟩
      rw [if_pos (heldBy_iff.mpr ⟨rfl, holds, live⟩)]

/-! ### The waits of a run -/

/-- Over any run of the daemons' transactions: a signal delivered to a live wait
after a claim's reading leaves the wait signalled once that claim's observation is
recorded, and due from then on but for its cooldown; nothing observed is past what
was signalled; and a wait is consumed at most once, by the finish of the unexpired
claim that holds it, its task still waiting in the wait's generations at the same
head.  A finish that returns its task woken is one that consumed. -/
theorem no_signal_lost (digest : Snapshot → String) (events : List Event) :
    (∀ claim signal record held visit,
      Earlier (taken (System.step digest) System.start events) claim signal →
      Earlier (taken (System.step digest) System.start events) signal record →
      Claims claim held → Signals signal held.owner.row.id → Records digest record held visit →
      ∃ row ∈ record.after.store.waits, row.id = held.owner.row.id ∧ row.live = true ∧
        row.signalled = true ∧ ∀ instant, row.due instant = true ↔
          stored visit.clock ≤ instant ∧ row.cooldownExpiresAt ≤ instant) ∧
    (∀ system ∈ states (System.step digest) System.start events,
      ∀ row ∈ system.store.waits, row.observedSignalSequence ≤ row.signalSequence) ∧
    (∀ step ∈ taken (System.step digest) System.start events, ∀ id,
      (Consumes step id → Held step id ∧ Wakes digest step.before step.event id) ∧
      (Wakes digest step.before step.event id → Consumes step id)) ∧
    ∀ first second id, Earlier (taken (System.step digest) System.start events) first second →
      Consumes first id → ¬ Consumes second id := by
  refine ⟨?_, ?_, ?_, ?_⟩
  · rintro claim signal record held visit claimed signalled ⟨-, holds⟩
      ⟨-, old, earlier, new, later, here, ids, -, more⟩
      ⟨index, result, store, event, found, records⟩
    have kept := run_continues claimed
    have onward := run_continues signalled
    have good := (run_good signalled.mem.1).1
    obtain ⟨standing, stepped⟩ := run_good signalled.mem.2
    obtain ⟨-, signalStep⟩ := run_good signalled.mem.1
    have after : Good signal.after := signalStep ▸ good_step signal.before signal.event good
    have member : held ∈ signal.before.claimed := by
      apply kept.claimed
      rw [holds]
      exact List.mem_append_right _ (List.mem_singleton_self _)
    have read := (good.read held member).2 old earlier here
    obtain ⟨row, inside, same, live, checks, baseline, cooldown, backoff, observed⟩ :=
      recorded_row records
    have minted : row.id ∈ signal.after.minted := by
      rw [same, ← ids]
      exact after.minted new later
    obtain ⟨before, there_, matched, fewer, -⟩ := onward.rows row inside minted
    have alike : before = new := after.same there_ later (matched.trans (same.trans ids.symm))
    subst alike
    have unread : held.owner.row.signalSequence < row.signalSequence := by omega
    have reached : record.after.store = store := by
      rw [stepped, event]
      simp only [System.step, found, records]
    refine ⟨row.observe checks baseline held.owner.row.signalledAt cooldown backoff
      held.owner.row.signalSequence visit.clock, ?_, same, live, decide_eq_true unread,
      observe_due unread⟩
    rw [reached]
    exact observed
  · intro system reached row member
    exact (invariant_of_step Good (@good_step digest) good_start events system
      reached).observed row member
  · intro step member id
    obtain ⟨good, stepped⟩ := run_good member
    obtain ⟨before, event, after⟩ := step
    have reached : after = before.step digest event := stepped
    subst reached
    refine ⟨fun consumes => ?_, woken_consumes⟩
    have wakes := consumes_wakes good consumes
    exact ⟨wakes_held wakes, wakes⟩
  · rintro first second id order ⟨-, -, new, later, -, ids, -, gone⟩
      ⟨row, inside, -, -, same, -, live, -⟩
    have onward := run_continues order
    obtain ⟨good, stepped⟩ := run_good order.mem.1
    have after : Good first.after := stepped ▸ good_step first.before first.event good
    have minted : row.id ∈ first.after.minted := by
      rw [same, ← ids]
      exact after.minted new later
    obtain ⟨old, there_, matched, -, stays⟩ := onward.rows row inside minted
    have alike : old = new := after.same there_ later (matched.trans (same.trans ids.symm))
    subst alike
    exact stays gone live

def racePull : BoundPr := ⟨2, 1, 3, "head"⟩

def raceTask : TaskRow :=
  { id := "task"
    fleet := "fleet"
    workspace := "workspace"
    status := .waiting
    statusReason := none
    resourceVersion := 1
    generation := 1
    stopGeneration := 0
    target := racePull
    maxModelNanos := 9
    usedModelNanos := 0
    reservedModelNanos := 0
    maxRunningNanos := 9
    usedRunningNanos := 0
    maxLeases := 9
    usedLeases := 1
    maxFallbackReads := 9
    usedFallbackReads := 0
    waitSequence := none
    expiresAt := 1000000000
    terminalAt := none
    checkpointCleanupAt := none
    lastTransitionAt := none }

def racePending : Snapshot := ⟨true, "head", [⟨7, none, none, none, "queued", none⟩]⟩

def raceVisit (instant : Int) : Visit := ⟨true, instant, instant, instant, .held, .failed⟩

def race : List Event :=
  [.lifecycle [raceTask] [] 0, .arm "wait" "task" "lease" racePull racePending 0,
    .record ⟨"run", "workspace", none, 1, 2, "head", 7, 1, 1, 1, 0⟩ 1000,
    .claim "wait" "claim" (raceVisit 2000), .deliver "run" true 3000 3000,
    .finish 0 (.ok racePending) (raceVisit 4000)]

/-- The delivery comes after the claim's reading and before its observation is recorded. -/
theorem no_signal_lost_raced :
    (∃ claim signal record held,
      Earlier (taken (System.step fun _ => "") System.start race) claim signal ∧
      Earlier (taken (System.step fun _ => "") System.start race) signal record ∧
      Claims claim held ∧ Signals signal held.owner.row.id ∧
      Records (fun _ => "") record held (raceVisit 4000) ∧
      ∃ row ∈ record.after.store.waits, row.id = held.owner.row.id ∧ row.signalled = true) ∧
    (final (System.step fun _ => "") System.start race).store.waits.map
      (fun row => (row.signalSequence, row.observedSignalSequence, row.live, row.dueAt)) =
        [(1, 0, true, 4000)] := by
  refine ⟨?_, by decide +kernel⟩
  let reached (count : Nat) : System :=
    final (System.step fun _ => "") System.start (race.take count)
  have none_yet : (reached 3).claimed = [] := by decide +kernel
  have claimed : (reached 4).claimed.map (fun held => held.owner.row.id) = ["wait"] := by
    decide +kernel
  have delivered : ∃ old ∈ (reached 4).store.waits, ∃ new ∈ (reached 5).store.waits,
      old.id = "wait" ∧ new.id = "wait" ∧ old.live = true ∧
        old.signalSequence < new.signalSequence := by
    decide +kernel
  have same : (reached 5).claimed = (reached 4).claimed := by decide +kernel
  have recorded : ∀ held ∈ (reached 4).claimed, ((reached 5).store.finish (fun _ => "")
      ⟨held.owner, held.claim, .ok racePending⟩ (raceVisit 4000)).toOption.map Prod.snd =
        some .recorded := by
    decide +kernel
  obtain ⟨held, alone, id⟩ := List.map_eq_singleton_iff.mp claimed
  rw [alone, List.forall_mem_singleton] at recorded
  obtain ⟨⟨store, disposition⟩, finished, rfl⟩ := Option.map_eq_some_iff.mp recorded
  let claim : Taken System Event := ⟨reached 3, .claim "wait" "claim" (raceVisit 2000), reached 4⟩
  let signal : Taken System Event := ⟨reached 4, .deliver "run" true 3000 3000, reached 5⟩
  let record : Taken System Event :=
    ⟨reached 5, .finish 0 (.ok racePending) (raceVisit 4000), reached 6⟩
  have first : Earlier (taken (System.step fun _ => "") System.start race) claim signal :=
    .cons _ (.cons _ (.cons _ (.cons_cons _ (.cons_cons _ (List.nil_sublist _)))))
  have second : Earlier (taken (System.step fun _ => "") System.start race) signal record :=
    .cons _ (.cons _ (.cons _ (.cons _ (.cons_cons _ (.cons_cons _ (List.nil_sublist _))))))
  have claims : Claims claim held := ⟨⟨_, _, _, rfl⟩, by rw [alone, none_yet]; rfl⟩
  have signals : Signals signal held.owner.row.id := ⟨⟨_, _, _, _, rfl⟩, id ▸ delivered⟩
  have records : Records (fun _ => "") record held (raceVisit 4000) := by
    refine ⟨0, .ok racePending, store, rfl, by rw [same, alone]; rfl, ?_⟩
    cases done : (reached 5).store.finish (fun _ => "")
        ⟨held.owner, held.claim, .ok racePending⟩ (raceVisit 4000) with
    | error fault =>
        rw [done] at finished
        cases finished
    | ok answer =>
        rw [done] at finished
        exact congrArg Except.ok (Option.some.inj finished)
  obtain ⟨row, member, named, -, signalled, -⟩ := (no_signal_lost (fun _ => "") race).1 claim
    signal record held (raceVisit 4000) first second claims signals records
  exact ⟨claim, signal, record, held, first, second, claims, signals, records, row, member, named,
    signalled⟩

end Agentsfleet.Waits
