import Mathlib.Data.List.Infix
import Agentsfleet.Lanes.Dispatch

/-!
# Each job once, in order

What a lane has taken is what it has begun to deliver followed by what it still holds,
and the lane that holds it is the one the table names.
-/

set_option autoImplicit false

namespace Agentsfleet.Lanes

open Agentsfleet.Library

namespace State

variable (s : State)

def destinationOf (n : Nat) : Option Destination :=
  (s.calls[n]?).map fun call => Destination.of call.job

def goesTo (destination : Destination) (n : Nat) : Bool :=
  decide (s.destinationOf n = some destination)

/-- What waits for `destination`, in the lane the table names. -/
def waiting (destination : Destination) : List Nat :=
  match (s.table destination).bind (s.lanes[·]?) with
  | some lane => lane.pending
  | none => []

def begun : List Nat := s.started.map Prod.snd

def inFlight : Nat := Table.weight Lane.delivers s.lanes

end State

/-! ## The invariant -/

structure Seated (s : State) : Prop where
  named : ∀ (n : Nat) (lane : Lane), s.lanes[n]? = some lane → lane.phase ≠ .ended →
    s.table lane.destination = some n
  tabled : ∀ destination n, s.table destination = some n →
    ∃ lane, s.lanes[n]? = some lane ∧ lane.destination = destination ∧ lane.phase ≠ .ended
  drained : ∀ (n : Nat) (lane : Lane), s.lanes[n]? = some lane → lane.phase = .ended →
    lane.jobs = []
  stopped : ∀ (n : Nat) (lane : Lane) (job : Nat), s.lanes[n]? = some lane →
    lane.phase = .stopped job → s.cancelled = true
  current : ∀ (n : Nat) (lane : Lane) (job : Nat), s.lanes[n]? = some lane →
    lane.phase = .delivering job → (n, job) ∈ s.started
  addressed : ∀ n job, (n, job) ∈ s.started →
    ∃ lane, s.lanes[n]? = some lane ∧ s.destinationOf job = some lane.destination

structure Inv (s : State) : Prop where
  seated : Seated s
  ceiling : s.permits + s.inFlight = inFlightDeliveries
  ordered : ∀ destination, s.published.filter (s.goesTo destination) =
    s.begun.filter (s.goesTo destination) ++ s.waiting destination
  taken : ∀ n, n ∈ s.published ↔ ∃ call, s.calls[n]? = some call ∧ call.stage = .returned
  once : s.published.Nodup
  earlier : ∀ (n : Nat) (call : Call), s.calls[n]? = some call →
    call.earlier <+: s.published ∧ n ∉ call.earlier
  acknowledged : ∀ job ∈ s.acknowledged, job ∈ s.begun

theorem start_inv : Inv State.start where
  seated := {
    named _ _ held := by simp [State.start] at held
    tabled _ _ held := by simp [State.start] at held
    drained _ _ held := by simp [State.start] at held
    stopped _ _ _ held := by simp [State.start] at held
    current _ _ _ held := by simp [State.start] at held
    addressed _ _ held := by simp [State.start] at held }
  ceiling := rfl
  ordered _ := rfl
  taken _ := by simp [State.start]
  once := List.nodup_nil
  earlier _ _ held := by simp [State.start] at held
  acknowledged _ held := by simp [State.start] at held

namespace Lane

theorem pending_concat (lane : Lane) (job : Nat) :
    ({ lane with jobs := lane.jobs ++ [job] } : Lane).pending = lane.pending ++ [job] := by
  unfold pending
  dsimp only
  split <;> rfl

end Lane

section Steps

theorem getElem?_concat {α : Type} {rows : List α} {row other : α} {n : Nat}
    (held : (rows ++ [row])[n]? = some other) :
    (n = rows.length ∧ other = row) ∨ rows[n]? = some other := by
  by_cases inside : n < rows.length
  · exact .inr ((List.getElem?_append_left inside).symm.trans held)
  · have at_most := (List.getElem?_eq_some_iff.mp held).1
    rw [List.length_append, List.length_singleton] at at_most
    obtain rfl : n = rows.length := by omega
    rw [List.getElem?_concat_length, Option.some.injEq] at held
    exact .inl ⟨rfl, held.symm⟩

variable {s : State} {n : Nat}

theorem waiting_setLane {lane next : Lane} (found : s.lanes[n]? = some lane)
    (same : next.pending = lane.pending) (destination : Destination) :
    (s.setLane n next).waiting destination = s.waiting destination := by
  unfold State.waiting State.setLane
  cases named : s.table destination with
  | none => rfl
  | some l =>
      by_cases here : l = n
      · subst here
        have inside : l < s.lanes.length := (List.getElem?_eq_some_iff.mp found).1
        simp only [Option.bind_some, List.getElem?_set_self inside, found, same]
      · simp only [Option.bind_some, List.getElem?_set_ne (Ne.symm here)]

theorem found_setLane {lane next other : Lane} {l : Nat} (found : s.lanes[n]? = some lane)
    (held : (s.setLane n next).lanes[l]? = some other) :
    (l = n ∧ other = next) ∨ (l ≠ n ∧ s.lanes[l]? = some other) := by
  have inside : n < s.lanes.length := (List.getElem?_eq_some_iff.mp found).1
  by_cases here : l = n
  · subst here
    rw [State.setLane, List.getElem?_set_self inside, Option.some.injEq] at held
    exact .inl ⟨rfl, held.symm⟩
  · rw [State.setLane, List.getElem?_set_ne (Ne.symm here)] at held
    exact .inr ⟨here, held⟩

theorem setLane_found {lane next : Lane} (found : s.lanes[n]? = some lane) :
    (s.setLane n next).lanes[n]? = some next :=
  List.getElem?_set_self (List.getElem?_eq_some_iff.mp found).1

theorem setLane_other {next : Lane} {l : Nat} (other : l ≠ n) :
    (s.setLane n next).lanes[l]? = s.lanes[l]? :=
  List.getElem?_set_ne (Ne.symm other)

theorem inFlight_setLane {lane : Lane} (next : Lane) (found : s.lanes[n]? = some lane) :
    (s.setLane n next).inFlight + lane.delivers = s.inFlight + next.delivers :=
  Table.weight_set Lane.delivers found next

theorem Seated.setLane (seated : Seated s) {lane : Lane} (next : Lane)
    (found : s.lanes[n]? = some lane)
    (ends : next.phase = .ended ↔ lane.phase = .ended)
    (destination : next.destination = lane.destination)
    (drained : next.phase = .ended → next.jobs = [])
    (stopped : ∀ job, next.phase = .stopped job → s.cancelled = true)
    (current : ∀ job, next.phase = .delivering job → (n, job) ∈ s.started) :
    Seated (s.setLane n next) where
  named l other held others := by
    rcases found_setLane found held with ⟨rfl, rfl⟩ | ⟨-, held⟩
    · rw [destination]
      exact seated.named l lane found fun ended => others (ends.mpr ended)
    · exact seated.named l other held others
  tabled there l named := by
    obtain ⟨other, held, addressed, others⟩ := seated.tabled there l named
    by_cases here : l = n
    · subst here
      obtain rfl : other = lane := Option.some.inj (held.symm.trans found)
      exact ⟨next, setLane_found found, destination.trans addressed,
        fun ended => others (ends.mp ended)⟩
    · exact ⟨other, (setLane_other here).trans held, addressed, others⟩
  drained l other held ended := by
    rcases found_setLane found held with ⟨-, rfl⟩ | ⟨-, held⟩
    · exact drained ended
    · exact seated.drained l other held ended
  stopped l other job held phase := by
    rcases found_setLane found held with ⟨-, rfl⟩ | ⟨-, held⟩
    · exact stopped job phase
    · exact seated.stopped l other job held phase
  current l other job held phase := by
    rcases found_setLane found held with ⟨rfl, rfl⟩ | ⟨-, held⟩
    · exact current job phase
    · exact seated.current l other job held phase
  addressed l job held := by
    obtain ⟨other, there, addressed⟩ := seated.addressed l job held
    by_cases here : l = n
    · subst here
      obtain rfl : other = lane := Option.some.inj (there.symm.trans found)
      exact ⟨next, setLane_found found, addressed.trans (by rw [destination])⟩
    · exact ⟨other, (setLane_other here).trans there, addressed⟩

theorem Inv.setLane (inv : Inv s) {next lane : Lane} (found : s.lanes[n]? = some lane)
    (pending : next.pending = lane.pending) (delivers : next.delivers = lane.delivers)
    (seated : Seated (s.setLane n next)) : Inv (s.setLane n next) where
  seated := seated
  ceiling := by
    have moved := inFlight_setLane next found
    have total := inv.ceiling
    rw [delivers] at moved
    change s.permits + (s.setLane n next).inFlight = _
    omega
  ordered destination := by
    rw [waiting_setLane found pending]
    exact inv.ordered destination
  taken := inv.taken
  once := inv.once
  earlier := inv.earlier
  acknowledged := inv.acknowledged

theorem Inv.setFree (inv : Inv s) {lane : Lane} (found : s.lanes[n]? = some lane) (free : Nat) :
    Inv (s.setLane n { lane with free := free }) := by
  have seated := inv.seated.setLane { lane with free := free } found Iff.rfl rfl
    (inv.seated.drained n lane found) (fun job => inv.seated.stopped n lane job found)
    (fun job => inv.seated.current n lane job found)
  exact inv.setLane found rfl rfl seated

/-! ## Dispatches -/

theorem destinationOf_setStage {call : Call} (found : s.calls[n]? = some call) (stage : Stage)
    (m : Nat) : (s.setStage n call stage).destinationOf m = s.destinationOf m := by
  have inside : n < s.calls.length := (List.getElem?_eq_some_iff.mp found).1
  unfold State.destinationOf State.setStage
  by_cases here : m = n
  · subst here
    simp only [List.getElem?_set_self inside, found, Option.map_some]
  · simp only [List.getElem?_set_ne (Ne.symm here)]

theorem goesTo_setStage {call : Call} (found : s.calls[n]? = some call) (stage : Stage)
    (destination : Destination) :
    (s.setStage n call stage).goesTo destination = s.goesTo destination := by
  funext m
  unfold State.goesTo
  rw [destinationOf_setStage found]

theorem found_setStage {call other : Call} {stage : Stage} {m : Nat}
    (found : s.calls[n]? = some call)
    (held : (s.setStage n call stage).calls[m]? = some other) :
    (m = n ∧ other = { call with stage := stage }) ∨ (m ≠ n ∧ s.calls[m]? = some other) := by
  have inside : n < s.calls.length := (List.getElem?_eq_some_iff.mp found).1
  by_cases here : m = n
  · subst here
    rw [State.setStage, List.getElem?_set_self inside, Option.some.injEq] at held
    exact .inl ⟨rfl, held.symm⟩
  · rw [State.setStage, List.getElem?_set_ne (Ne.symm here)] at held
    exact .inr ⟨here, held⟩

theorem setStage_found {call : Call} {stage : Stage} (found : s.calls[n]? = some call) :
    (s.setStage n call stage).calls[n]? = some { call with stage := stage } :=
  List.getElem?_set_self (List.getElem?_eq_some_iff.mp found).1

theorem setStage_other {call : Call} {stage : Stage} {m : Nat} (other : m ≠ n) :
    (s.setStage n call stage).calls[m]? = s.calls[m]? :=
  List.getElem?_set_ne (Ne.symm other)

theorem Seated.setStage (seated : Seated s) {call : Call} (found : s.calls[n]? = some call)
    (stage : Stage) : Seated (s.setStage n call stage) where
  named := seated.named
  tabled := seated.tabled
  drained := seated.drained
  stopped := seated.stopped
  current := seated.current
  addressed l job held := by
    rw [destinationOf_setStage found]
    exact seated.addressed l job held

theorem Inv.setStage (inv : Inv s) {call : Call} {stage : Stage} (found : s.calls[n]? = some call)
    (before : call.stage ≠ .returned) (after : stage ≠ .returned) :
    Inv (s.setStage n call stage) where
  seated := inv.seated.setStage found stage
  ceiling := inv.ceiling
  ordered destination := by
    rw [goesTo_setStage found]
    exact inv.ordered destination
  taken m := by
    apply (inv.taken m).trans
    by_cases here : m = n
    · subst here
      rw [found, setStage_found found]
      constructor
      · rintro ⟨other, held, returned⟩
        cases held
        exact absurd returned before
      · rintro ⟨other, held, returned⟩
        cases held
        exact absurd returned after
    · rw [setStage_other here]
  once := inv.once
  earlier m other held := by
    rcases found_setStage found held with ⟨rfl, rfl⟩ | ⟨-, held⟩
    · exact inv.earlier m call found
    · exact inv.earlier m other held
  acknowledged := inv.acknowledged

theorem Inv.inside (inv : Inv s) (held : n ∈ s.published) : n < s.calls.length := by
  obtain ⟨call, found, -⟩ := (inv.taken n).mp held
  exact (List.getElem?_eq_some_iff.mp found).1

theorem Inv.begun_inside (inv : Inv s) (held : n ∈ s.begun) : n < s.calls.length := by
  obtain ⟨⟨l, job⟩, member, rfl⟩ := List.mem_map.mp held
  obtain ⟨lane, -, addressed⟩ := inv.seated.addressed l job member
  obtain ⟨call, found, -⟩ := Option.map_eq_some_iff.mp addressed
  exact (List.getElem?_eq_some_iff.mp found).1

theorem destinationOf_dispatch (job : Job) (inside : n < s.calls.length) :
    (s.dispatch job).destinationOf n = s.destinationOf n := by
  unfold State.destinationOf State.dispatch
  rw [List.getElem?_append_left inside]

theorem goesTo_dispatch (job : Job) (destination : Destination) (inside : n < s.calls.length) :
    (s.dispatch job).goesTo destination n = s.goesTo destination n := by
  unfold State.goesTo
  rw [destinationOf_dispatch job inside]

theorem dispatch_inv (inv : Inv s) (job : Job) : Inv (s.dispatch job) where
  seated := { inv.seated with
    addressed l m held := by
      obtain ⟨lane, found, addressed⟩ := inv.seated.addressed l m held
      have inside := inv.begun_inside (List.mem_map.mpr ⟨_, held, rfl⟩)
      exact ⟨lane, found, (destinationOf_dispatch job inside).trans addressed⟩ }
  ceiling := inv.ceiling
  ordered destination := by
    have published : s.published.filter ((s.dispatch job).goesTo destination) =
        s.published.filter (s.goesTo destination) :=
      List.filter_congr fun m held => goesTo_dispatch job destination (inv.inside held)
    have begun : s.begun.filter ((s.dispatch job).goesTo destination) =
        s.begun.filter (s.goesTo destination) :=
      List.filter_congr fun m held => goesTo_dispatch job destination (inv.begun_inside held)
    change s.published.filter _ = s.begun.filter _ ++ s.waiting destination
    rw [published, begun]
    exact inv.ordered destination
  taken m := by
    apply (inv.taken m).trans
    constructor
    · rintro ⟨call, found, returned⟩
      have inside := (List.getElem?_eq_some_iff.mp found).1
      exact ⟨call, (List.getElem?_append_left inside).trans found, returned⟩
    · rintro ⟨call, found, returned⟩
      rcases getElem?_concat found with ⟨-, rfl⟩ | found
      · cases returned
      · exact ⟨call, found, returned⟩
  once := inv.once
  earlier m call found := by
    rcases getElem?_concat found with ⟨rfl, rfl⟩ | found
    · exact ⟨List.prefix_rfl, fun held => Nat.lt_irrefl _ (inv.inside held)⟩
    · exact inv.earlier m call found
  acknowledged := inv.acknowledged

/-! ## Finding a lane -/

theorem spawn_inv (inv : Inv s) {destination : Destination} (none_ : s.table destination = none) :
    Inv (s.laneFor destination).1 := by
  unfold State.laneFor
  rw [none_]
  dsimp only
  have others : ∀ l (lane : Lane), (s.lanes ++ [Lane.new destination])[l]? = some lane →
      (l = s.lanes.length ∧ lane = Lane.new destination) ∨ s.lanes[l]? = some lane :=
    fun l lane held => getElem?_concat held
  have kept : ∀ {l : Nat} {lane : Lane}, s.lanes[l]? = some lane →
      (s.lanes ++ [Lane.new destination])[l]? = some lane := by
    intro l lane held
    exact (List.getElem?_append_left (List.getElem?_eq_some_iff.mp held).1).trans held
  refine { inv with seated := ⟨?_, ?_, ?_, ?_, ?_, ?_⟩, ceiling := ?_, ordered := ?_ }
  · intro l lane held alive
    rcases others l lane held with ⟨rfl, rfl⟩ | held
    · exact if_pos rfl
    · have named := inv.seated.named l lane held alive
      have apart : lane.destination ≠ destination := by
        intro same
        rw [same, none_] at named
        cases named
      exact (if_neg apart).trans named
  · intro other l named
    dsimp only at named
    split at named
    · rename_i same
      cases named
      exact ⟨Lane.new destination, List.getElem?_concat_length, same.symm, nofun⟩
    · obtain ⟨lane, held, rest⟩ := inv.seated.tabled other l named
      exact ⟨lane, kept held, rest⟩
  · intro l lane held ended
    rcases others l lane held with ⟨-, rfl⟩ | held
    · rfl
    · exact inv.seated.drained l lane held ended
  · intro l lane job held phase
    rcases others l lane held with ⟨-, rfl⟩ | held
    · cases phase
    · exact inv.seated.stopped l lane job held phase
  · intro l lane job held phase
    rcases others l lane held with ⟨-, rfl⟩ | held
    · cases phase
    · exact inv.seated.current l lane job held phase
  · intro l job held
    obtain ⟨lane, found, addressed⟩ := inv.seated.addressed l job held
    exact ⟨lane, kept found, addressed⟩
  · have total := inv.ceiling
    unfold State.inFlight at total ⊢
    rw [Table.weight_append, Table.weight_singleton]
    exact total
  · intro other
    apply (inv.ordered other).trans
    congr 1
    unfold State.waiting
    dsimp only
    by_cases same : other = destination
    · subst same
      rw [none_, if_pos rfl, Option.bind_some, List.getElem?_concat_length]
      rfl
    · rw [if_neg same]
      cases named : s.table other with
      | none => rfl
      | some l =>
          obtain ⟨lane, held, -⟩ := inv.seated.tabled other l named
          rw [Option.bind_some, Option.bind_some, held, kept held]

theorem laneFor_inv (inv : Inv s) (destination : Destination) : Inv (s.laneFor destination).1 := by
  cases named : s.table destination with
  | none => exact spawn_inv inv named
  | some l =>
      unfold State.laneFor
      rw [named]
      exact inv

theorem laneFor_calls (destination : Destination) :
    (s.laneFor destination).1.calls = s.calls := by
  unfold State.laneFor
  split <;> rfl

theorem find_inv (inv : Inv s) (n : Nat) : Inv (s.find n) := by
  unfold State.find
  split
  · rename_i call found
    split
    · rename_i looking
      refine (laneFor_inv inv (Destination.of call.job)).setStage ?_ ?_ nofun
      · rw [laneFor_calls, found]
      · rw [looking]
        exact nofun
    · exact inv
  · exact inv

/-! ## Reserving -/

theorem reserve_inv (inv : Inv s) (n : Nat) : Inv (s.reserve n) := by
  unfold State.reserve
  split
  · rename_i call found
    split
    · rename_i l at_lane
      have unreturned : call.stage ≠ .returned := by
        rw [at_lane]
        exact nofun
      split
      · rename_i lane held
        split
        · exact inv.setStage found unreturned nofun
        · split
          · exact inv
          · exact (inv.setFree held (lane.free - 1)).setStage found unreturned nofun
      · exact inv
    · exact inv
  · exact inv

/-! ## Publishing -/

theorem Seated.here (seated : Seated s) {lane : Lane} {destination : Destination}
    (found : s.lanes[n]? = some lane) (named : s.table destination = some n) :
    lane.destination = destination ∧ lane.phase ≠ .ended := by
  obtain ⟨again, held, addressed, alive⟩ := seated.tabled destination n named
  obtain rfl : again = lane := Option.some.inj (held.symm.trans found)
  exact ⟨addressed, alive⟩

theorem waiting_elsewhere (seated : Seated s) {lane : Lane} (next : Lane)
    {destination : Destination}
    (found : s.lanes[n]? = some lane) (apart : destination ≠ lane.destination) :
    (s.setLane n next).waiting destination = s.waiting destination := by
  unfold State.waiting
  have tables : (s.setLane n next).table = s.table := rfl
  rw [tables]
  cases there : s.table destination with
  | none => rfl
  | some l =>
      have other : l ≠ n := by
        rintro rfl
        exact apart (seated.here found there).1.symm
      rw [Option.bind_some, Option.bind_some, setLane_other other]

theorem waiting_at {lane : Lane} {destination : Destination} (found : s.lanes[n]? = some lane)
    (named : s.table destination = some n) : s.waiting destination = lane.pending := by
  rw [State.waiting, named, Option.bind_some, found]

theorem goesTo_self {destination : Destination} (there : s.destinationOf n = some destination) :
    s.goesTo destination n = true := decide_eq_true there

theorem not_goesTo {destination other : Destination}
    (there : s.destinationOf n = some destination) (apart : other ≠ destination) :
    ¬ s.goesTo other n = true := by
  intro goes
  have addressed := of_decide_eq_true goes
  rw [there, Option.some.injEq] at addressed
  exact apart addressed.symm

theorem handed_inv (inv : Inv s) {call : Call} {lane : Lane} {l : Nat}
    (called : s.calls[n]? = some call) (reserved : call.stage = .reserved l)
    (found : s.lanes[l]? = some lane) (named : s.table (Destination.of call.job) = some l) :
    Inv { (s.setLane l { lane with jobs := lane.jobs ++ [n] }).setStage n call .returned with
      published := s.published ++ [n] } := by
  have fresh : n ∉ s.published := by
    intro held
    obtain ⟨again, there, returned⟩ := (inv.taken n).mp held
    obtain rfl : again = call := Option.some.inj (there.symm.trans called)
    rw [reserved] at returned
    cases returned
  obtain ⟨addressed, alive⟩ := inv.seated.here found named
  have there : s.destinationOf n = some lane.destination := by
    rw [State.destinationOf, called, Option.map_some, addressed]
  have seated : Seated (s.setLane l { lane with jobs := lane.jobs ++ [n] }) :=
    inv.seated.setLane _ found Iff.rfl rfl (fun ended => absurd ended alive)
      (fun job => inv.seated.stopped l lane job found)
      (fun job => inv.seated.current l lane job found)
  have seated' := seated.setStage called .returned
  refine {
    seated := ⟨seated'.named, seated'.tabled, seated'.drained, seated'.stopped, seated'.current,
      seated'.addressed⟩,
    ceiling := ?_, ordered := ?_, taken := ?_, once := ?_, earlier := ?_,
    acknowledged := inv.acknowledged }
  · have moved := inFlight_setLane { lane with jobs := lane.jobs ++ [n] } found
    have delivers : ({ lane with jobs := lane.jobs ++ [n] } : Lane).delivers = lane.delivers := rfl
    have total := inv.ceiling
    change s.permits + (s.setLane l { lane with jobs := lane.jobs ++ [n] }).inFlight = _
    omega
  · intro destination
    change (s.published ++ [n]).filter ((s.setStage n call .returned).goesTo destination) =
      s.begun.filter ((s.setStage n call .returned).goesTo destination) ++
        (s.setLane l { lane with jobs := lane.jobs ++ [n] }).waiting destination
    rw [goesTo_setStage called, List.filter_append, inv.ordered destination, List.append_assoc]
    congr 1
    by_cases same : destination = lane.destination
    · subst same
      rw [← addressed] at named
      have after : (s.setLane l { lane with jobs := lane.jobs ++ [n] }).waiting lane.destination =
          lane.pending ++ [n] :=
        (waiting_at (setLane_found found) named).trans (lane.pending_concat n)
      rw [waiting_at found named, after, List.filter_cons_of_pos (goesTo_self there),
        List.filter_nil]
    · rw [waiting_elsewhere inv.seated _ found same,
        List.filter_cons_of_neg (not_goesTo there same), List.filter_nil, List.append_nil]
  · intro m
    by_cases here : m = n
    · subst here
      constructor
      · intro _
        exact ⟨_, setStage_found called, rfl⟩
      · intro _
        simp
    · have others : (s.setStage n call .returned).calls[m]? = s.calls[m]? := setStage_other here
      change m ∈ s.published ++ [n] ↔
        ∃ other : Call, (s.setStage n call .returned).calls[m]? = some other ∧ _
      rw [others, ← inv.taken m]
      simp [here]
  · have more := inv.once.concat fresh
    rwa [List.concat_eq_append] at more
  · intro m other held
    rcases found_setStage called held with ⟨rfl, rfl⟩ | ⟨-, held⟩
    · obtain ⟨before, apart⟩ := inv.earlier m call called
      exact ⟨before.trans (List.prefix_append _ _), apart⟩
    · obtain ⟨before, apart⟩ := inv.earlier m other held
      exact ⟨before.trans (List.prefix_append _ _), apart⟩

theorem publish_inv (inv : Inv s) (n : Nat) : Inv (s.publish n) := by
  unfold State.publish
  split
  · rename_i call called
    split
    · rename_i l reserved
      split
      · rename_i lane found
        split
        · rename_i named
          exact handed_inv inv called reserved found named
        · refine (inv.setFree found (lane.free + 1)).setStage called ?_ nofun
          rw [reserved]
          exact nofun
      · exact inv
    · exact inv
  · exact inv

/-! ## A lane between jobs -/

namespace Lane

structure Resting (lane : Lane) : Prop where
  pending : lane.pending = lane.jobs
  delivers : lane.delivers = 0
  alive : lane.phase ≠ .ended

theorem resting_of_idle {lane : Lane} (idle : lane.phase = .idle) : lane.Resting := by
  refine ⟨?_, ?_, ?_⟩
  · rw [pending, idle]
  · rw [delivers, idle]
  · rw [idle]
    exact nofun

theorem resting_of_looked {lane : Lane} (looked : lane.phase = .looked) : lane.Resting := by
  refine ⟨?_, ?_, ?_⟩
  · rw [pending, looked]
  · rw [delivers, looked]
  · rw [looked]
    exact nofun

end Lane

theorem take_inv (inv : Inv s) {lane : Lane} {job : Nat} {rest : List Nat}
    (found : s.lanes[n]? = some lane) (resting : lane.Resting) (queued : lane.jobs = job :: rest) :
    Inv (s.setLane n { lane with jobs := rest, free := lane.free + 1, phase := .holding job }) := by
  have seated := inv.seated.setLane
    { lane with jobs := rest, free := lane.free + 1, phase := .holding job } found
    (iff_of_false nofun resting.alive) rfl nofun nofun nofun
  refine inv.setLane found ?_ ?_ seated
  · rw [resting.pending, queued]
    rfl
  · rw [resting.delivers]
    rfl

theorem look_inv (inv : Inv s) (n : Nat) : Inv (s.look n) := by
  unfold State.look
  split
  · rename_i lane found
    split
    · rename_i idle
      have resting := Lane.resting_of_idle idle
      split
      · rename_i job rest queued
        exact take_inv inv found resting queued
      · split
        · have seated := inv.seated.setLane { lane with phase := .looked } found
            (iff_of_false nofun resting.alive) rfl nofun nofun nofun
          refine inv.setLane found ?_ ?_ seated
          · rw [resting.pending]
            rfl
          · rw [resting.delivers]
            rfl
        · -- the table still holds a sender of a lane that has not retired
          rename_i senderless
          refine absurd ?_ senderless
          rw [State.hasSender, inv.seated.named n lane found resting.alive]
          simp
    · exact inv
  · exact inv

theorem retired_seated (seated : Seated s) {lane : Lane} (found : s.lanes[n]? = some lane)
    (alive : lane.phase ≠ .ended) (empty : lane.jobs = []) :
    Seated { s.setLane n { lane with phase := .ended } with
      table := fun other => if other = lane.destination then none else s.table other } := by
  have named := seated.named n lane found alive
  refine ⟨?_, ?_, ?_, ?_, ?_, ?_⟩
  · intro l other held still
    rcases found_setLane found held with ⟨-, rfl⟩ | ⟨here, held⟩
    · exact absurd rfl still
    · have theirs := seated.named l other held still
      have apart : other.destination ≠ lane.destination := by
        intro same
        rw [same, named, Option.some.injEq] at theirs
        exact here theirs.symm
      exact (if_neg apart).trans theirs
  · intro destination l held
    dsimp only at held
    split at held
    · cases held
    · rename_i apart
      obtain ⟨other, there, addressed, still⟩ := seated.tabled destination l held
      have here : l ≠ n := by
        rintro rfl
        exact apart (seated.here found held).1.symm
      exact ⟨other, (setLane_other here).trans there, addressed, still⟩
  · intro l other held ended
    rcases found_setLane found held with ⟨-, rfl⟩ | ⟨-, held⟩
    · exact empty
    · exact seated.drained l other held ended
  · intro l other job held phase
    rcases found_setLane found held with ⟨-, rfl⟩ | ⟨-, held⟩
    · cases phase
    · exact seated.stopped l other job held phase
  · intro l other job held phase
    rcases found_setLane found held with ⟨-, rfl⟩ | ⟨-, held⟩
    · cases phase
    · exact seated.current l other job held phase
  · intro l job held
    obtain ⟨other, there, addressed⟩ := seated.addressed l job held
    by_cases here : l = n
    · subst here
      obtain rfl : other = lane := Option.some.inj (there.symm.trans found)
      exact ⟨_, setLane_found found, addressed⟩
    · exact ⟨other, (setLane_other here).trans there, addressed⟩

theorem retired_inv (inv : Inv s) {lane : Lane} (found : s.lanes[n]? = some lane)
    (resting : lane.Resting) (empty : lane.jobs = []) :
    Inv { s.setLane n { lane with phase := .ended } with
      table := fun other => if other = lane.destination then none else s.table other } := by
  have named := inv.seated.named n lane found resting.alive
  refine { inv with
    seated := retired_seated inv.seated found resting.alive empty, ceiling := ?_, ordered := ?_ }
  · have moved := inFlight_setLane { lane with phase := .ended } found
    have before := resting.delivers
    have after : ({ lane with phase := .ended } : Lane).delivers = 0 := rfl
    have total := inv.ceiling
    change s.permits + (s.setLane n { lane with phase := .ended }).inFlight = _
    omega
  · intro destination
    apply (inv.ordered destination).trans
    congr 1
    by_cases same : destination = lane.destination
    · subst same
      rw [waiting_at found named, resting.pending, empty]
      unfold State.waiting
      dsimp only
      rw [if_pos rfl]
      rfl
    · rw [← waiting_elsewhere inv.seated { lane with phase := .ended } found same]
      unfold State.waiting
      dsimp only
      rw [if_neg same]
      rfl

theorem retire_inv (inv : Inv s) (n : Nat) : Inv (s.retire n) := by
  unfold State.retire
  split
  · rename_i lane found
    split
    · rename_i looked
      have resting := Lane.resting_of_looked looked
      split
      · rename_i gone
        rw [inv.seated.named n lane found resting.alive] at gone
        cases gone
      · split
        · rename_i job rest queued
          exact take_inv inv found resting queued
        · rename_i empty
          exact retired_inv inv found resting empty
    · exact inv
  · exact inv

/-! ## A lane with a job -/

theorem Seated.start (seated : Seated s) {lane : Lane} {job : Nat}
    (found : s.lanes[n]? = some lane) (goes : s.destinationOf job = some lane.destination) :
    Seated { s with started := s.started ++ [(n, job)] } where
  named := seated.named
  tabled := seated.tabled
  drained := seated.drained
  stopped := seated.stopped
  current l other again held phase :=
    List.mem_append_left _ (seated.current l other again held phase)
  addressed l again held := by
    rcases List.mem_append.mp held with held | new
    · exact seated.addressed l again held
    · cases List.mem_singleton.mp new
      exact ⟨lane, found, goes⟩

theorem begun_inv (inv : Inv s) {lane : Lane} {job : Nat} (found : s.lanes[n]? = some lane)
    (holding : lane.phase = .holding job) (free : s.permits ≠ 0) :
    Inv { s.setLane n { lane with phase := .delivering job } with
      permits := s.permits - 1
      started := s.started ++ [(n, job)] } := by
  have alive : lane.phase ≠ .ended := by
    rw [holding]
    exact nofun
  have named := inv.seated.named n lane found alive
  have waits : s.waiting lane.destination = job :: lane.jobs := by
    rw [waiting_at found named, Lane.pending, holding]
  have goes : s.destinationOf job = some lane.destination := by
    have first : job ∈ s.published.filter (s.goesTo lane.destination) := by
      rw [inv.ordered, waits]
      simp
    exact of_decide_eq_true (List.mem_filter.mp first).2
  have begun : ({ s with started := s.started ++ [(n, job)] } : State).begun = s.begun ++ [job] :=
    List.map_append
  have current : ∀ again, Phase.delivering job = .delivering again →
      (n, again) ∈ s.started ++ [(n, job)] := by
    intro again same
    cases same
    exact List.mem_append_right _ (List.mem_singleton.mpr rfl)
  have seated := (inv.seated.start found goes).setLane { lane with phase := .delivering job }
    found (iff_of_false nofun alive) rfl nofun nofun current
  refine { inv with
    seated := ⟨seated.named, seated.tabled, seated.drained, seated.stopped, seated.current,
      seated.addressed⟩,
    ceiling := ?_, ordered := ?_, acknowledged := ?_ }
  · have moved := inFlight_setLane { lane with phase := .delivering job } found
    have before : lane.delivers = 0 := by rw [Lane.delivers, holding]
    have after : ({ lane with phase := .delivering job } : Lane).delivers = 1 := rfl
    have total := inv.ceiling
    change s.permits - 1 + (s.setLane n { lane with phase := .delivering job }).inFlight = _
    omega
  · intro destination
    change s.published.filter (s.goesTo destination) =
      ({ s with started := s.started ++ [(n, job)] } : State).begun.filter
          (s.goesTo destination) ++
        (s.setLane n { lane with phase := .delivering job }).waiting destination
    rw [begun, inv.ordered destination, List.filter_append, List.append_assoc]
    congr 1
    by_cases same : destination = lane.destination
    · subst same
      have after : (s.setLane n { lane with phase := .delivering job }).waiting lane.destination =
          lane.jobs := waiting_at (setLane_found found) named
      rw [waits, after, List.filter_cons_of_pos (goesTo_self goes), List.filter_nil,
        List.singleton_append]
    · rw [waiting_elsewhere inv.seated _ found same,
        List.filter_cons_of_neg (not_goesTo goes same), List.filter_nil, List.nil_append]
  · intro again held
    have before := List.mem_append_left [job] (inv.acknowledged again held)
    rwa [← begun] at before

theorem proceed_inv (inv : Inv s) (n : Nat) : Inv (s.proceed n) := by
  unfold State.proceed
  split
  · rename_i lane found
    split
    · rename_i job holding
      have alive : lane.phase ≠ .ended := by
        rw [holding]
        exact nofun
      split
      · rename_i cancelled
        have seated := inv.seated.setLane { lane with phase := .stopped job } found
          (iff_of_false nofun alive) rfl nofun (fun _ _ => cancelled) nofun
        refine inv.setLane found ?_ ?_ seated
        · rw [Lane.pending, Lane.pending, holding]
        · simp only [Lane.delivers, holding]
      · split
        · exact inv
        · rename_i free
          exact begun_inv inv found holding free
    · exact inv
  · exact inv

theorem released_inv (inv : Inv s) {lane : Lane} {job : Nat} (found : s.lanes[n]? = some lane)
    (delivering : lane.phase = .delivering job) :
    Inv { s.setLane n { lane with phase := .idle } with permits := s.permits + 1 } := by
  have alive : lane.phase ≠ .ended := by
    rw [delivering]
    exact nofun
  have pending : ({ lane with phase := .idle } : Lane).pending = lane.pending := by
    simp only [Lane.pending, delivering]
  have seated := inv.seated.setLane { lane with phase := .idle } found
    (iff_of_false nofun alive) rfl nofun nofun nofun
  refine { inv with
    seated := ⟨seated.named, seated.tabled, seated.drained, seated.stopped, seated.current,
      seated.addressed⟩,
    ceiling := ?_, ordered := ?_ }
  · have moved := inFlight_setLane { lane with phase := .idle } found
    have before : lane.delivers = 1 := by rw [Lane.delivers, delivering]
    have after : ({ lane with phase := .idle } : Lane).delivers = 0 := rfl
    have total := inv.ceiling
    change s.permits + 1 + (s.setLane n { lane with phase := .idle }).inFlight = _
    omega
  · intro destination
    apply (inv.ordered destination).trans
    rw [← waiting_setLane found pending]
    rfl

theorem finish_inv (inv : Inv s) (n : Nat) (verdict : Verdict) (acknowledges : Bool) :
    Inv (s.finish n verdict acknowledges) := by
  unfold State.finish
  split
  · rename_i lane found
    split
    · rename_i job delivering
      have released := released_inv inv found delivering
      dsimp only
      split
      · exact released
      · refine { released with
          seated := ⟨released.seated.named, released.seated.tabled, released.seated.drained,
            released.seated.stopped, released.seated.current, released.seated.addressed⟩,
          acknowledged := ?_ }
        intro again held
        rcases List.mem_append.mp held with held | new
        · exact inv.acknowledged again held
        · obtain rfl := List.mem_singleton.mp new
          exact List.mem_map.mpr ⟨_, inv.seated.current n lane again found delivering, rfl⟩
    · exact inv
  · exact inv

theorem cancel_inv (inv : Inv s) : Inv { s with cancelled := true } := by
  have seated := inv.seated
  refine { inv with
    seated := ⟨seated.named, seated.tabled, seated.drained, fun _ _ _ _ _ => rfl, seated.current,
      seated.addressed⟩ }

theorem step_inv (s : State) (event : Event) (inv : Inv s) : Inv (s.step event) := by
  cases event with
  | dispatch job => exact dispatch_inv inv job
  | find call => exact find_inv inv call
  | reserve call => exact reserve_inv inv call
  | publish call => exact publish_inv inv call
  | look lane => exact look_inv inv lane
  | retire lane => exact retire_inv inv lane
  | proceed lane => exact proceed_inv inv lane
  | finish lane verdict acknowledges => exact finish_inv inv lane verdict acknowledges
  | cancel => exact cancel_inv inv

end Steps

/-! ## What every reachable state shows -/

section Reached

variable {s : State} {n : Nat}

theorem Inv.held (inv : Inv s) {lane : Lane} {l : Nat} (found : s.lanes[l]? = some lane)
    (held : n ∈ lane.pending) :
    s.table lane.destination = some l ∧ s.destinationOf n = some lane.destination ∧
      n ∉ s.begun := by
  have alive : lane.phase ≠ .ended := by
    intro ended
    rw [Lane.pending, ended, inv.seated.drained l lane found ended] at held
    cases held
  have named := inv.seated.named l lane found alive
  have waits : n ∈ s.waiting lane.destination := by rwa [waiting_at found named]
  have ordered := inv.ordered lane.destination
  have goes : s.goesTo lane.destination n = true := by
    have member : n ∈ s.published.filter (s.goesTo lane.destination) := by
      rw [ordered]
      exact List.mem_append_right _ waits
    exact (List.mem_filter.mp member).2
  refine ⟨named, of_decide_eq_true goes, fun begun => ?_⟩
  have distinct := inv.once.filter (s.goesTo lane.destination)
  rw [ordered, List.nodup_append'] at distinct
  exact distinct.2.2 (List.mem_filter.mpr ⟨begun, goes⟩) waits

theorem Inv.begun_goes (inv : Inv s) (begun : n ∈ s.begun) :
    ∃ destination, s.goesTo destination n = true := by
  obtain ⟨⟨l, job⟩, member, rfl⟩ := List.mem_map.mp begun
  obtain ⟨lane, -, addressed⟩ := inv.seated.addressed l job member
  exact ⟨lane.destination, goesTo_self addressed⟩

theorem Inv.begun_nodup (inv : Inv s) : s.begun.Nodup := by
  rw [List.nodup_iff_count_le_one]
  intro job
  by_cases begun : job ∈ s.begun
  · obtain ⟨destination, goes⟩ := inv.begun_goes begun
    have published := List.nodup_iff_count_le_one.mp inv.once job
    have counted : (s.published.filter (s.goesTo destination)).count job = s.published.count job :=
      List.count_filter goes
    rw [inv.ordered destination, List.count_append, List.count_filter goes] at counted
    omega
  · rw [List.count_eq_zero_of_not_mem begun]
    exact Nat.zero_le 1

/-- A job whose dispatch had returned before another's to the same destination began is
delivered before it. -/
theorem Inv.in_order (inv : Inv s) {call : Call} {first : Nat} (called : s.calls[n]? = some call)
    (before : first ∈ call.earlier)
    (same : s.destinationOf first = some (Destination.of call.job)) (begun : n ∈ s.begun) :
    [first, n].Sublist s.begun := by
  obtain ⟨⟨later, published⟩, apart⟩ := inv.earlier n call called
  have goes : s.goesTo (Destination.of call.job) n = true := by
    apply goesTo_self
    rw [State.destinationOf, called, Option.map_some]
  have ordered := inv.ordered (Destination.of call.job)
  rw [← published, List.filter_append] at ordered
  have first_in := List.mem_filter.mpr ⟨before, goesTo_self same⟩
  have last_in := List.mem_filter.mpr ⟨begun, goes⟩
  rcases List.append_eq_append_iff.mp ordered with ⟨middle, split, -⟩ | ⟨middle, split, -⟩
  · have after : n ∈ middle := by
      rw [split] at last_in
      rcases List.mem_append.mp last_in with early | after
      · exact absurd (List.mem_filter.mp early).1 apart
      · exact after
    have pair := (List.singleton_sublist.mpr first_in).append (List.singleton_sublist.mpr after)
    rw [← split] at pair
    exact pair.trans List.filter_sublist
  · have early : n ∈ call.earlier := by
      have inside := List.mem_append_left middle last_in
      rw [← split] at inside
      exact (List.mem_filter.mp inside).1
    exact absurd early apart

structure OnceInOrder (s : State) : Prop where
  one_lane : ∀ (first second : Nat) (one other : Lane), s.lanes[first]? = some one →
    s.lanes[second]? = some other → one.live = true → other.live = true →
    one.destination = other.destination → first = second
  ceiling : s.inFlight ≤ inFlightDeliveries
  kept : ∀ (n : Nat) (call : Call), s.calls[n]? = some call → call.stage = .returned →
    n ∈ s.begun ∨ ∃ (l : Nat) (lane : Lane), s.lanes[l]? = some lane ∧ n ∈ lane.pending ∧
      lane.destination = Destination.of call.job ∧ (s.cancelled = false → lane.live = true)
  one_holder : ∀ (first second n : Nat) (one other : Lane), s.lanes[first]? = some one →
    s.lanes[second]? = some other → n ∈ one.pending → n ∈ other.pending → first = second
  unbegun : ∀ (l n : Nat) (lane : Lane), s.lanes[l]? = some lane → n ∈ lane.pending → n ∉ s.begun
  once : s.begun.Nodup
  own_lane : ∀ l n, (l, n) ∈ s.started →
    ∃ lane, s.lanes[l]? = some lane ∧ s.destinationOf n = some lane.destination
  in_order : ∀ (n first : Nat) (call : Call), s.calls[n]? = some call → first ∈ call.earlier →
    s.destinationOf first = some (Destination.of call.job) → n ∈ s.begun →
    [first, n].Sublist s.begun
  as_taken : ∀ destination,
    s.begun.filter (s.goesTo destination) <+: s.published.filter (s.goesTo destination)
  acknowledged : ∀ n ∈ s.acknowledged, n ∈ s.begun

theorem Inv.kept (inv : Inv s) {call : Call} (called : s.calls[n]? = some call)
    (returned : call.stage = .returned) :
    n ∈ s.begun ∨ ∃ (l : Nat) (lane : Lane), s.lanes[l]? = some lane ∧ n ∈ lane.pending ∧
      lane.destination = Destination.of call.job ∧ (s.cancelled = false → lane.live = true) := by
  have goes : s.goesTo (Destination.of call.job) n = true := by
    apply goesTo_self
    rw [State.destinationOf, called, Option.map_some]
  have member := List.mem_filter.mpr ⟨(inv.taken n).mpr ⟨call, called, returned⟩, goes⟩
  rw [inv.ordered, List.mem_append] at member
  rcases member with begun | waits
  · exact .inl (List.mem_filter.mp begun).1
  · right
    unfold State.waiting at waits
    cases named : s.table (Destination.of call.job) with
    | none =>
        rw [named] at waits
        cases waits
    | some l =>
        obtain ⟨lane, found, addressed, alive⟩ := inv.seated.tabled _ l named
        rw [named, Option.bind_some, found] at waits
        refine ⟨l, lane, found, waits, addressed, fun running => ?_⟩
        unfold Lane.live
        split
        · rename_i job phase
          rw [inv.seated.stopped l lane job found phase] at running
          cases running
        · rename_i phase
          exact absurd phase alive
        · rfl

theorem Lane.alive_of_live {lane : Lane} (live : lane.live = true) : lane.phase ≠ .ended := by
  intro ended
  rw [Lane.live, ended] at live
  cases live

theorem Inv.onceInOrder (inv : Inv s) : OnceInOrder s where
  one_lane first second one other found found' live live' same := by
    have named := inv.seated.named first one found (Lane.alive_of_live live)
    have named' := inv.seated.named second other found' (Lane.alive_of_live live')
    rw [← same, named, Option.some.injEq] at named'
    exact named'
  ceiling := by
    have total := inv.ceiling
    omega
  kept _ _ called returned := inv.kept called returned
  one_holder first second n one other found found' held held' := by
    obtain ⟨named, goes, -⟩ := inv.held found held
    obtain ⟨named', goes', -⟩ := inv.held found' held'
    rw [goes, Option.some.injEq] at goes'
    rw [← goes', named, Option.some.injEq] at named'
    exact named'
  unbegun _ _ _ found held := (inv.held found held).2.2
  once := inv.begun_nodup
  own_lane := inv.seated.addressed
  in_order _ _ _ called before same begun := inv.in_order called before same begun
  as_taken destination := ⟨_, (inv.ordered destination).symm⟩
  acknowledged := inv.acknowledged

/-- Every job once and in order, over any interleaving. -/
theorem each_once_in_order (events : List Event) :
    ∀ s ∈ Run.states State.step State.start events, OnceInOrder s := by
  intro s reached
  exact (Run.invariant_of_step Inv step_inv start_inv events s reached).onceInOrder

end Reached

def twoAnswers : List Event :=
  [.dispatch ⟨"1", "slack", "channel", "workspace", "fleet", "first", "one"⟩, .find 0, .reserve 0,
    .publish 0, .look 0, .proceed 0,
    .dispatch ⟨"2", "slack", "channel", "workspace", "fleet", "second", "two"⟩, .find 1,
    .reserve 1, .publish 1, .finish 0 .delivered true, .look 0, .proceed 0]

theorem each_once_in_order_two :
    (Run.final State.step State.start twoAnswers).started = [(0, 0), (0, 1)] ∧
      OnceInOrder (Run.final State.step State.start twoAnswers) :=
  ⟨by decide, each_once_in_order twoAnswers _ (Run.final_mem_states _ _ _)⟩

end Agentsfleet.Lanes
