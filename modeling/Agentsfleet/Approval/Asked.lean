import Agentsfleet.Approval.Answers

/-!
# A question put stays put

Once a gate was raised for an event, every poll of the event that begins later is decided by
that gate: whatever policy the poll carries, it runs only after an approval, it raises no
second card and it counts no repetition.  The one exception is a poll whose own lookup failed
while its policy asks nothing.
-/

set_option autoImplicit false

namespace Agentsfleet.Approval

open Agentsfleet.Core
open Agentsfleet.Library
open Agentsfleet.Library.Run (Taken taken)

/-! ## What a poll makes of its statement -/

def Gate.Holds (row : Gate) (check : Check) : Prop :=
  row.fleet = check.fleet ∧ row.event = some check.event

def Names (t : Tables) (check : Check) (action : String) : Prop :=
  ∃ row ∈ t.gates, row.action = action ∧ row.Holds check

section Turns

variable (fromStr : String → Option Json) (uuid7 : Nat → String)

inductive Looks (d : Desk) (check : Check) (io : Io) (now : Int) : Phase → Phase → Prop where
  | cached (action : String)
      (found : d.references (check.fleet, check.event) = some (.reference action)) :
      Looks d check io now .looking (.mirrored action)
  | uncached : Looks d check io now .looking .missing
  | unread (phase : Phase) (lookup : phase = .looking ∨ phase = .missing)
      (lost : io ≠ .answered) :
      Looks d check io now phase (check.firstEncounter fromStr .unreadable)
  | recovered (row : Gate) (found : d.tables.eventGate check.fleet check.event = some row) :
      Looks d check io now .missing (.mirrored row.action)
  | absent (none_held : d.tables.eventGate check.fleet check.event = none) :
      Looks d check io now .missing (check.firstEncounter fromStr .absent)
  | judged (state : RefState) (policy : GatePolicy) (rest : List AnomalyRule) :
      Looks d check io now (.counting state policy rest) (check.judge fromStr state policy)
  | counted (state : RefState) (policy : GatePolicy) (rule : AnomalyRule)
      (rest : List AnomalyRule) :
      Looks d check io now (.counting state policy (rule :: rest))
        (check.count fromStr state policy rest)
  | tripped (state : RefState) (policy : GatePolicy) (rest : List AnomalyRule) :
      Looks d check io now (.counting state policy rest) (.stopping .anomaly)
  | stopped (trigger : Trigger) :
      Looks d check io now (.stopping trigger) (.ended (.killed trigger))
  | raised (stated : Stated) : Looks d check io now (.raising stated) (.referencing (uuid7 d.drawn))
  | unraised (stated : Stated) : Looks d check io now (.raising stated) (.ended .unavailable)
  | referenced (action : String) (verdict : Verdict)
      (waits : verdict = .await .parked ∨ verdict = .unavailable) :
      Looks d check io now (.referencing action) (.ended verdict)
  | mirror (action : String) (mirror : Answer)
      (read : (d.responses action).bind Answer.parse = some mirror) :
      Looks d check io now (.mirrored action) (.ended (.ofEvaluation (evaluate (some mirror) false)))
  | silent (action : String) : Looks d check io now (.mirrored action) (.standing action)
  | stood (action : String) (row : Gate) (found : d.tables.standing action = some row) :
      Looks d check io now (.standing action)
        (.ended (.ofEvaluation (evaluate (answer row.status) (row.lapsed now))))
  | waits (phase : Phase) (waiting : Waiting) (unparked : waiting ≠ .parked) :
      Looks d check io now phase (.ended (.await waiting))

structure Frame (d after : Desk) (check : Check) (phase next : Phase) : Prop where
  responses : after.responses = d.responses
  references : after.references = d.references ∨ ∃ action, phase = .referencing action ∧
    after.references = (d.record check action).references
  tables : after.tables = d.tables ∨ ∃ stated, phase = .raising stated
  counters : after.counters = d.counters ∨
    ∃ state policy rest, phase = .counting state policy rest
  names : ∀ action, next = .referencing action → Names after.tables check action

theorem frame_of_same {d : Desk} {check : Check} {phase next : Phase} {slot : Nat}
    (unnamed : ∀ action, next ≠ .referencing action) :
    Frame d (d.setPoll slot check next) check phase next :=
  ⟨rfl, .inl rfl, .inl rfl, .inl rfl, fun action same => absurd same (unnamed action)⟩

/-- The phases policy alone leads to: none names a gate, and none is the end of one. -/
def Phase.Ruled : Phase → Prop
  | .referencing _ | .mirrored _ | .standing _ | .ended (.refuse _) => False
  | _ => True

theorem Phase.Ruled.ne_referencing {phase : Phase} (ruled : phase.Ruled) (action : String) :
    phase ≠ .referencing action := by
  rintro rfl
  exact ruled

theorem judge_ruled (check : Check) (state : RefState) (policy : GatePolicy) :
    (check.judge fromStr state policy).Ruled := by
  unfold Check.judge
  dsimp only
  split <;> trivial

theorem count_ruled (check : Check) (state : RefState) (policy : GatePolicy)
    (rest : List AnomalyRule) : (check.count fromStr state policy rest).Ruled := by
  cases rest with
  | nil => exact judge_ruled fromStr check state policy
  | cons => trivial

theorem firstEncounter_ruled (check : Check) (state : RefState) :
    (check.firstEncounter fromStr state).Ruled := by
  unfold Check.firstEncounter
  split
  · trivial
  · exact count_ruled fromStr check state _ _

theorem poll_looks {d : Desk} {slot : Nat} {check : Check} {phase : Phase}
    (found : d.polls[slot]? = some ⟨check, phase⟩) (io : Io) (now : Int) :
    (∃ verdict, phase = .ended verdict) ∧ d.poll fromStr uuid7 slot io now = d ∨
      ∃ next, Looks fromStr uuid7 d check io now phase next ∧
        (d.poll fromStr uuid7 slot io now).polls = d.polls.set slot ⟨check, next⟩ ∧
        Frame d (d.poll fromStr uuid7 slot io now) check phase next := by
  unfold Desk.poll
  rw [found]
  dsimp only
  cases phase with
  | ended verdict => exact .inl ⟨⟨verdict, rfl⟩, rfl⟩
  | looking =>
      refine .inr ?_
      cases io with
      | failed | unheard =>
          exact ⟨_, .unread _ (.inl rfl) (by decide), rfl,
            frame_of_same (firstEncounter_ruled fromStr check _).ne_referencing⟩
      | answered =>
          dsimp only
          split
          · rename_i action cached
            exact ⟨_, .cached action cached, rfl, frame_of_same fun _ same => nomatch same⟩
          · exact ⟨_, .uncached, rfl, frame_of_same fun _ same => nomatch same⟩
  | missing =>
      refine .inr ?_
      cases io with
      | failed | unheard =>
          exact ⟨_, .unread _ (.inr rfl) (by decide), rfl,
            frame_of_same (firstEncounter_ruled fromStr check _).ne_referencing⟩
      | answered =>
          dsimp only
          split
          · rename_i row recovered
            exact ⟨_, .recovered row recovered, rfl, frame_of_same fun _ same => nomatch same⟩
          · rename_i none_held
            exact ⟨_, .absent none_held, rfl,
              frame_of_same (firstEncounter_ruled fromStr check _).ne_referencing⟩
  | counting state policy rest =>
      refine .inr ?_
      have counted {after : Desk} {next : Phase} (responses : after.responses = d.responses)
          (references : after.references = d.references) (tables : after.tables = d.tables)
          (unnamed : ∀ action, next ≠ .referencing action) :
          Frame d after check (.counting state policy rest) next :=
        ⟨responses, .inl references, .inl tables, .inr ⟨state, policy, rest, rfl⟩,
          fun action same => absurd same (unnamed action)⟩
      have judged := (judge_ruled fromStr check state policy).ne_referencing
      cases rest with
      | nil => exact ⟨_, .judged state policy [], rfl, frame_of_same judged⟩
      | cons rule rest =>
          cases io with
          | failed => exact ⟨_, .judged state policy _, rfl, frame_of_same judged⟩
          | unheard => exact ⟨_, .judged state policy _, rfl, counted rfl rfl rfl judged⟩
          | answered =>
              dsimp only
              split
              · exact ⟨_, .tripped state policy _, rfl,
                  counted rfl rfl rfl fun _ same => nomatch same⟩
              · exact ⟨_, .counted state policy rule rest, rfl,
                  counted rfl rfl rfl (count_ruled fromStr check state policy rest).ne_referencing⟩
  | stopping trigger =>
      refine .inr ⟨_, .stopped trigger, ?_⟩
      cases io with
      | failed | unheard | answered =>
          exact ⟨rfl, rfl, .inl rfl, .inl rfl, .inl rfl, fun _ same => nomatch same⟩
  | raising stated =>
      refine .inr ?_
      cases io with
      | failed => exact ⟨_, .unraised stated, rfl, frame_of_same fun _ same => nomatch same⟩
      | unheard =>
          exact ⟨_, .unraised stated, rfl, rfl, .inl rfl, .inr ⟨stated, rfl⟩, .inl rfl,
            fun _ same => nomatch same⟩
      | answered =>
          refine ⟨_, .raised stated, rfl, rfl, .inl rfl, .inr ⟨stated, rfl⟩, .inl rfl, ?_⟩
          intro action same
          cases same
          exact ⟨_, List.mem_append_right _ (List.mem_singleton_self _), rfl, rfl, rfl⟩
  | referencing action =>
      refine .inr ?_
      cases io with
      | failed =>
          exact ⟨_, .referenced action _ (.inr rfl), rfl,
            frame_of_same fun _ same => nomatch same⟩
      | unheard =>
          exact ⟨_, .referenced action _ (.inr rfl), rfl, rfl, .inr ⟨action, rfl, rfl⟩, .inl rfl,
            .inl rfl, fun _ same => nomatch same⟩
      | answered =>
          exact ⟨_, .referenced action _ (.inl rfl), rfl, rfl, .inr ⟨action, rfl, rfl⟩, .inl rfl,
            .inl rfl, fun _ same => nomatch same⟩
  | mirrored action =>
      refine .inr ?_
      cases io with
      | failed | unheard =>
          exact ⟨_, .waits _ .unreadable (by decide), rfl, frame_of_same fun _ same => nomatch same⟩
      | answered =>
          dsimp only
          split
          · rename_i mirror read
            exact ⟨_, .mirror action mirror read, rfl, frame_of_same fun _ same => nomatch same⟩
          · exact ⟨_, .silent action, rfl, frame_of_same fun _ same => nomatch same⟩
  | standing action =>
      refine .inr ?_
      cases io with
      | failed | unheard =>
          exact ⟨_, .waits _ .unreadable (by decide), rfl, frame_of_same fun _ same => nomatch same⟩
      | answered =>
          dsimp only
          split
          · rename_i row stands
            exact ⟨_, .stood action row stands, rfl, frame_of_same fun _ same => nomatch same⟩
          · exact ⟨_, .waits _ .pending (by decide), rfl, frame_of_same fun _ same => nomatch same⟩

end Turns

/-! ## What the cache and the polls hold -/

def Phase.Sound (t : Tables) (check : Check) : Phase → Prop
  | .mirrored action | .standing action | .referencing action => Names t check action
  | _ => True

structure Desk.Refers (d : Desk) : Prop where
  references : ∀ check action,
    d.references (check.fleet, check.event) = some (.reference action) →
      Names d.tables check action
  responses : ∀ action mirror, (d.responses action).bind Answer.parse = some mirror →
    ∃ row ∈ d.tables.gates, row.action = action ∧ Approval.answer row.status = some mirror
  polls : ∀ poll ∈ d.polls, poll.phase.Sound d.tables poll.check

theorem answered_of_answer {row : Gate} (marked : row.Marked) {given : Answer}
    (answers : answer row.status = some given) : row.isPending = false := by
  by_contra still
  have pending := marked.status.mpr (by simpa using still)
  rw [pending] at answers
  exact nomatch answers

section Kept

variable {uuid7 : Nat → String} {owed : Resolved → String → Prop} {drawn next : Nat}
  {t after : Tables}

theorem names_kept (transacts : Transacts uuid7 owed drawn t next after) {check : Check}
    {action : String} (names : Names t check action) : Names after check action := by
  obtain ⟨row, held, same, fleet, event⟩ := names
  obtain ⟨new, later, moved⟩ := gate_kept transacts held
  exact ⟨new, later, moved.action_eq.trans same, moved.fleet_eq.trans fleet,
    moved.event_eq.trans event⟩

theorem phase_sound_kept (transacts : Transacts uuid7 owed drawn t next after) {check : Check}
    {phase : Phase} (held : phase.Sound t check) : phase.Sound after check := by
  cases phase with
  | mirrored | standing | referencing => exact names_kept transacts held
  | looking | missing | counting | stopping | raising | ended => trivial

theorem answer_kept (sound : GatesSound uuid7 drawn t.gates)
    (transacts : Transacts uuid7 owed drawn t next after) {action : String} {given : Answer}
    (held : ∃ row ∈ t.gates, row.action = action ∧ answer row.status = some given) :
    ∃ row ∈ after.gates, row.action = action ∧ answer row.status = some given := by
  obtain ⟨row, inside, same, answers⟩ := held
  obtain ⟨new, later, moved⟩ := gate_kept transacts inside
  have stands := moved.frozen (answered_of_answer (sound.marked row inside) answers)
  exact ⟨new, later, stands ▸ same, stands ▸ answers⟩

end Kept

section Step

variable (fromStr : String → Option Json) {uuid7 : Nat → String}

theorem looks_sound {d : Desk} {after : Tables} {check : Check} {io : Io} {now : Int}
    {phase next : Phase} (refers : d.Refers) (held : phase.Sound d.tables check)
    (kept : ∀ action, Names d.tables check action → Names after check action)
    (named : ∀ action, next = .referencing action → Names after check action)
    (looks : Looks fromStr uuid7 d check io now phase next) : next.Sound after check := by
  have judged (state : RefState) (policy : GatePolicy) :
      (check.judge fromStr state policy).Sound after check := by
    unfold Check.judge
    dsimp only
    split <;> trivial
  have counted (state : RefState) (policy : GatePolicy) (rest : List AnomalyRule) :
      (check.count fromStr state policy rest).Sound after check := by
    cases rest with
    | nil => exact judged state policy
    | cons => trivial
  have first (state : RefState) : (check.firstEncounter fromStr state).Sound after check := by
    unfold Check.firstEncounter
    split
    · trivial
    · exact counted state _ _
  cases looks with
  | cached action found => exact kept action (refers.references check action found)
  | uncached | tripped | stopped | unraised | referenced | mirror | stood | waits => trivial
  | unread | absent => exact first _
  | recovered row found =>
      obtain ⟨member, picked⟩ := newest_mem found
      rw [Bool.and_eq_true, beq_iff_eq, beq_iff_eq] at picked
      exact kept row.action ⟨row, member, rfl, picked⟩
  | judged state policy => exact judged state policy
  | counted state policy rule rest => exact counted state policy rest
  | raised stated => exact named _ rfl
  | silent action => exact kept action held

theorem poll_refers {d : Desk} (sound : d.Sound uuid7) (refers : d.Refers) (slot : Nat) (io : Io)
    (now : Int) : (d.poll fromStr uuid7 slot io now).Refers := by
  have transacts := poll_transacts fromStr uuid7 d slot io now
  cases found : d.polls[slot]? with
  | none =>
      have idle : d.poll fromStr uuid7 slot io now = d := by
        unfold Desk.poll
        rw [found]
      rw [idle]
      exact refers
  | some poll =>
      obtain ⟨check, phase⟩ := poll
      have held : phase.Sound d.tables check := refers.polls _ (List.mem_of_getElem? found)
      rcases poll_looks fromStr uuid7 found io now with ⟨-, idle⟩ | ⟨next, looks, polls, frame⟩
      · rw [idle]
        exact refers
      · refine ⟨fun other action cached => ?_, fun action mirror read => ?_, fun poll member => ?_⟩
        · rcases frame.references with same | ⟨recorded, rfl, written⟩
          · rw [same] at cached
            exact names_kept transacts (refers.references other action cached)
          · -- The reference this poll writes is its own event's.
            rw [written, Desk.record] at cached
            dsimp only at cached
            by_cases here : (other.fleet, other.event) = (check.fleet, check.event)
            · rw [here, Function.update_self] at cached
              cases cached
              obtain ⟨row, inside, same, holds⟩ := names_kept transacts held
              rw [Prod.mk.injEq] at here
              exact ⟨row, inside, same, holds.1.trans here.1.symm, here.2 ▸ holds.2⟩
            · rw [Function.update_of_ne here] at cached
              exact names_kept transacts (refers.references other action cached)
        · rw [frame.responses] at read
          exact answer_kept sound.gates transacts (refers.responses action mirror read)
        · rw [polls] at member
          rcases List.mem_or_eq_of_mem_set member with old | rfl
          · exact phase_sound_kept transacts (refers.polls poll old)
          · exact looks_sound fromStr refers held (fun _ => names_kept transacts) frame.names
              looks

theorem refers_of_kept {d after : Desk} (sound : d.Sound uuid7) (refers : d.Refers)
    (transacts : Transacts uuid7 d.Owed d.drawn d.tables after.drawn after.tables)
    (references : ∀ key action, after.references key = some (.reference action) →
      d.references key = some (.reference action))
    (responses : ∀ action mirror, (after.responses action).bind Answer.parse = some mirror →
      (d.responses action).bind Answer.parse = some mirror ∨
        ∃ row ∈ d.tables.gates, row.action = action ∧ answer row.status = some mirror)
    (polls : ∀ poll ∈ after.polls, poll ∈ d.polls ∨ poll.phase = .looking) : after.Refers := by
  refine ⟨fun check action cached => ?_, fun action mirror read => ?_, fun poll member => ?_⟩
  · exact names_kept transacts (refers.references check action (references _ action cached))
  · refine answer_kept sound.gates transacts ?_
    rcases responses action mirror read with old | new
    · exact refers.responses action mirror old
    · exact new
  · rcases polls poll member with old | begins
    · exact phase_sound_kept transacts (refers.polls poll old)
    · rw [begins]
      trivial

theorem update_reference {d : Desk} {fleet event : String} {cached : Option Cached}
    (unread : ∀ action, cached ≠ some (.reference action)) (key : String × String)
    (action : String)
    (held : Function.update d.references (fleet, event) cached key = some (.reference action)) :
    d.references key = some (.reference action) := by
  by_cases here : key = (fleet, event)
  · rw [here, Function.update_self] at held
    exact absurd held (unread action)
  · rwa [Function.update_of_ne here] at held

variable (uuid7) in
theorem answer_frame (d : Desk) (slot : Nat) (io : Io) (now : Int) :
    (d.answer uuid7 slot io now).references = d.references ∧
      (d.answer uuid7 slot io now).responses = d.responses ∧
      (d.answer uuid7 slot io now).polls = d.polls := by
  have admitted (resolved : Resolved) (event : String) :
      (d.continuationOf uuid7 resolved event).1.references = d.references ∧
        (d.continuationOf uuid7 resolved event).1.responses = d.responses ∧
        (d.continuationOf uuid7 resolved event).1.polls = d.polls := by
    unfold Desk.continuationOf
    split <;> exact ⟨rfl, rfl, rfl⟩
  unfold Desk.answer
  split
  · exact ⟨rfl, rfl, rfl⟩
  · split <;> first
      | exact ⟨rfl, rfl, rfl⟩
      | exact admitted _ _
      | (split <;> exact ⟨rfl, rfl, rfl⟩)

theorem step_refers {d : Desk} (sound : d.Sound uuid7) (refers : d.Refers) (event : Event) :
    (d.step fromStr uuid7 event).Refers := by
  have transacts := step_transacts fromStr uuid7 d event
  have same : ∀ poll ∈ d.polls, poll ∈ d.polls ∨ poll.phase = .looking := fun _ => .inl
  cases event with
  | poll slot io now => exact poll_refers fromStr sound refers slot io now
  | begin check =>
      refine refers_of_kept sound refers transacts (fun _ _ => id) (fun _ _ => .inl) ?_
      intro poll member
      rcases List.mem_append.mp member with old | new
      · exact .inl old
      · exact .inr (List.mem_singleton.mp new ▸ rfl)
  | answer slot io now =>
      have kept := answer_frame uuid7 d slot io now
      refine refers_of_kept sound refers transacts ?_ ?_ ?_
      · intro key action cached
        exact kept.1 ▸ cached
      · exact fun action mirror read => .inl (kept.2.1 ▸ read)
      · exact fun poll member => .inl (kept.2.2 ▸ member)
  | forget fleet event =>
      exact refers_of_kept sound refers transacts
        (update_reference fun _ same => by cases same) (fun _ _ => .inl) same
  | garble fleet event =>
      exact refers_of_kept sound refers transacts
        (update_reference fun _ same => by cases same) (fun _ _ => .inl) same
  | mirror action text =>
      simp only [Desk.step] at transacts ⊢
      split
      · rename_i allowed
        refine refers_of_kept sound refers .idle (fun _ _ => id) (fun other mirror read => ?_) same
        dsimp only at read
        by_cases here : other = action
        · -- What is mirrored is what the newest gate of the action stands at.
          subst here
          rw [Function.update_self, Option.bind_some] at read
          rcases allowed with illegible | commits
          · rw [illegible] at read
            cases read
          · rw [read] at commits
            obtain ⟨row, stands, answers⟩ := Option.bind_eq_some_iff.mp commits.symm
            obtain ⟨member, picked⟩ := newest_mem stands
            exact .inr ⟨row, member, beq_iff_eq.mp picked, answers⟩
        · rw [Function.update_of_ne here] at read
          exact .inl read
      · exact refers
  | unmirror action =>
      refine refers_of_kept sound refers transacts (fun _ _ => id)
        (fun other mirror read => ?_) same
      by_cases here : other = action
      · subst here
        simp only [Desk.step, Function.update_self, Option.bind_none] at read
        cases read
      · simp only [Desk.step] at read
        rw [Function.update_of_ne here] at read
        exact .inl read
  | lease leased =>
      simp only [Desk.step, Desk.leaseOpens] at transacts ⊢
      split
      · exact refers
      · rename_i found
        rw [found] at transacts
        exact refers_of_kept sound refers transacts (fun _ _ => id) (fun _ _ => .inl) same
  | resolve | sweep | request | revoke | cancelSetup | windowEnds | resume | deliver | settled
  | park => exact refers_of_kept sound refers transacts (fun _ _ => id) (fun _ _ => .inl) same

theorem start_refers : Desk.start.Refers :=
  ⟨fun _ _ cached => (nomatch cached), fun _ _ read => (nomatch read), List.forall_mem_nil _⟩

end Step

/-! ## A poll of an event that was asked about -/

def Check.released (fromStr : String → Option Json) (check : Check) : Prop :=
  ∀ policy, check.gates = some policy →
    Decision.of (matchRule policy check.eventType check.actor (fromStr check.requestJson)) =
      .autoApprove

/-- Where such a poll can be.  `lost` is whether some read or write of its own went
unanswered. -/
def Phase.Asked (fromStr : String → Option Json) (t : Tables) (check : Check) (lost : Prop) :
    Phase → Prop
  | .looking | .missing => True
  | .counting state policy _ => lost ∧ state = .unreadable ∧ check.gates = some policy
  | .stopping _ => lost
  | .raising _ | .referencing _ => False
  | .mirrored action | .standing action => Names t check action
  | .ended .pass =>
      (∃ row ∈ t.gates, row.Holds check ∧ row.status = .approved) ∨ lost ∧ check.released fromStr
  | .ended (.refuse .denied) =>
      ∃ row ∈ t.gates, row.Holds check ∧ answer row.status = some .denied
  | .ended (.killed _) => lost
  | .ended .unavailable | .ended (.await .parked) => False
  | .ended (.refuse .expired) | .ended (.await .pending) | .ended (.await .unreadable) => True

section Asked

variable (fromStr : String → Option Json) {uuid7 : Nat → String}

theorem approved_of_answer {status : GateStatus} (answers : answer status = some .approved) :
    status = .approved := by
  cases status with
  | approved => rfl
  | pending | denied | timedOut | autoKilled => exact nomatch answers

theorem asked_kept {owed : Resolved → String → Prop} {drawn next : Nat} {t after : Tables}
    (sound : GatesSound uuid7 drawn t.gates) (transacts : Transacts uuid7 owed drawn t next after)
    {check : Check} {lost : Prop} {phase : Phase} (asked : phase.Asked fromStr t check lost) :
    phase.Asked fromStr after check lost := by
  have stands {row : Gate} (held : row ∈ t.gates) {given : Answer}
      (answers : answer row.status = some given) : row ∈ after.gates := by
    obtain ⟨new, later, moved⟩ := gate_kept transacts held
    exact moved.frozen (answered_of_answer (sound.marked row held) answers) ▸ later
  cases phase with
  | looking | missing | counting | stopping | raising | referencing => exact asked
  | mirrored | standing => exact names_kept transacts asked
  | ended verdict =>
      cases verdict with
      | pass =>
          rcases asked with ⟨row, held, holds, approved⟩ | released
          · exact .inl ⟨row, stands held (by rw [approved]; rfl), holds, approved⟩
          · exact .inr released
      | refuse refused =>
          cases refused with
          | denied =>
              obtain ⟨row, held, holds, denied⟩ := asked
              exact ⟨row, stands held denied, holds, denied⟩
          | expired => trivial
      | await waiting => cases waiting <;> exact asked
      | killed | unavailable => exact asked

theorem judge_asked {t : Tables} {check : Check} {lost : Prop} {policy : GatePolicy}
    (fails : lost) (carries : check.gates = some policy) :
    (check.judge fromStr .unreadable policy).Asked fromStr t check lost := by
  unfold Check.judge
  dsimp only
  cases decided : Decision.of (matchRule policy check.eventType check.actor
      (fromStr check.requestJson)) with
  | autoApprove =>
      refine Or.inr ⟨fails, fun other holds => ?_⟩
      cases carries.symm.trans holds
      exact decided
  | requiresApproval => trivial
  | autoKill => exact fails

theorem count_asked {t : Tables} {check : Check} {lost : Prop} {policy : GatePolicy}
    (fails : lost) (carries : check.gates = some policy) (rest : List AnomalyRule) :
    (check.count fromStr .unreadable policy rest).Asked fromStr t check lost := by
  cases rest with
  | nil => exact judge_asked fromStr fails carries
  | cons => exact ⟨fails, rfl, carries⟩

theorem firstEncounter_asked {t : Tables} {check : Check} {lost : Prop} (fails : lost) :
    (check.firstEncounter fromStr .unreadable).Asked fromStr t check lost := by
  unfold Check.firstEncounter
  split
  · rename_i without
    exact Or.inr ⟨fails, fun policy carries => nomatch without.symm.trans carries⟩
  · rename_i policy carries
    exact count_asked fromStr fails carries _

theorem holds_of_names {d : Desk} (sound : d.Sound uuid7) {check : Check} {action : String}
    (names : Names d.tables check action) {row : Gate} (member : row ∈ d.tables.gates)
    (same : row.action = action) : row.Holds check := by
  obtain ⟨own, held, named, holds⟩ := names
  have equal : own = row := List.inj_on_of_nodup_map sound.gates.actions held member
    (named.trans same.symm)
  exact equal ▸ holds

theorem evaluated_asked {t : Tables} {check : Check} {lost : Prop} {given : Option Answer}
    {lapsed : Bool}
    (stands : ∀ mirror, given = some mirror →
      ∃ row ∈ t.gates, row.Holds check ∧ answer row.status = some mirror) :
    (Phase.ended (.ofEvaluation (evaluate given lapsed))).Asked fromStr t check lost := by
  cases given with
  | none => cases lapsed <;> trivial
  | some mirror =>
      obtain ⟨row, member, holds, answers⟩ := stands mirror rfl
      cases mirror with
      | approved => exact Or.inl ⟨row, member, holds, approved_of_answer answers⟩
      | denied => exact ⟨row, member, holds, answers⟩

theorem looks_asked {d : Desk} {check : Check} {io : Io} {now : Int} {phase next : Phase}
    {lost : Prop} (sound : d.Sound uuid7) (refers : d.Refers)
    (held : ∃ row ∈ d.tables.gates, row.Holds check) (heard : io ≠ .answered → lost)
    (asked : phase.Asked fromStr d.tables check lost)
    (looks : Looks fromStr uuid7 d check io now phase next) :
    next.Asked fromStr d.tables check lost := by
  cases looks with
  | cached action found => exact refers.references check action found
  | uncached => trivial
  | unread _ lookup failed => exact firstEncounter_asked fromStr (heard failed)
  | recovered row found =>
      obtain ⟨member, picked⟩ := newest_mem found
      rw [Bool.and_eq_true, beq_iff_eq, beq_iff_eq] at picked
      exact ⟨row, member, rfl, picked⟩
  | absent none_held =>
      -- The durable lookup cannot miss the gate the event holds.
      obtain ⟨row, member, fleet, event⟩ := held
      have missed := newest_eq_none.mp none_held row member
      rw [fleet, event, beq_self_eq_true, beq_self_eq_true] at missed
      exact nomatch missed
  | judged state policy rest =>
      obtain ⟨fails, rfl, carries⟩ := asked
      exact judge_asked fromStr fails carries
  | counted state policy rule rest =>
      obtain ⟨fails, rfl, carries⟩ := asked
      exact count_asked fromStr fails carries rest
  | tripped => exact asked.1
  | stopped => exact asked
  | raised | unraised | referenced => exact asked.elim
  | mirror action mirror read =>
      refine evaluated_asked fromStr fun given same => ?_
      cases same
      obtain ⟨row, member, named, answers⟩ := refers.responses action mirror read
      exact ⟨row, member, holds_of_names sound asked member named, answers⟩
  | silent => exact asked
  | stood action row found =>
      obtain ⟨member, picked⟩ := newest_mem found
      exact evaluated_asked fromStr fun given answers =>
        ⟨row, member, holds_of_names sound asked member (beq_iff_eq.mp picked), answers⟩
  | waits _ waiting unparked =>
      cases waiting with
      | parked => exact absurd rfl unparked
      | pending | unreadable => trivial

/-- Only a gate that was read unanswered past its deadline ends a poll as expired. -/
theorem looks_expired {d : Desk} {check : Check} {io : Io} {now : Int} {phase next : Phase}
    {lost : Prop} (asked : phase.Asked fromStr d.tables check lost)
    (looks : Looks fromStr uuid7 d check io now phase next)
    (expired : next = .ended (.refuse .expired)) :
    ∃ row ∈ d.tables.gates, Names d.tables check row.action ∧ row.status = .pending ∧
      row.lapsed now = true := by
  have unruled (ruled : next.Ruled) : False := by
    rw [expired] at ruled
    exact ruled
  cases looks with
  | unread | absent => exact (unruled (firstEncounter_ruled fromStr check _)).elim
  | judged state policy => exact (unruled (judge_ruled fromStr check state policy)).elim
  | counted state policy rule rest =>
      exact (unruled (count_ruled fromStr check state policy rest)).elim
  | mirror action mirror read => cases mirror <;> cases expired
  | stood action row found =>
      obtain ⟨member, picked⟩ := newest_mem found
      refine ⟨row, member, beq_iff_eq.mp picked ▸ asked, ?_⟩
      cases status : row.status with
      | pending =>
          rw [status] at expired
          cases late : row.lapsed now with
          | true => exact ⟨rfl, rfl⟩
          | false =>
              rw [late] at expired
              cases expired
      | approved | denied | timedOut | autoKilled =>
          rw [status] at expired
          cases expired
  | referenced action verdict waits =>
      rcases waits with rfl | rfl <;> cases expired
  | cached | uncached | recovered | tripped | stopped | raised | unraised | silent | waits =>
      cases expired

structure AskedAt (fromStr : String → Option Json) (uuid7 : Nat → String) (d : Desk)
    (slot : Nat) (check : Check) (lost : Prop) : Prop where
  sound : d.Sound uuid7
  refers : d.Refers
  held : ∃ row ∈ d.tables.gates, row.Holds check
  poll : ∃ phase, d.polls[slot]? = some ⟨check, phase⟩ ∧ phase.Asked fromStr d.tables check lost

theorem step_polls (d : Desk) {slot : Nat} {poll : Poll} (found : d.polls[slot]? = some poll)
    (event : Event) (other : ∀ slot io now, event ≠ .poll slot io now) :
    (d.step fromStr uuid7 event).polls[slot]? = some poll := by
  cases event with
  | poll slot io now => exact absurd rfl (other slot io now)
  | begin check =>
      have inside : slot < d.polls.length := (List.getElem?_eq_some_iff.mp found).1
      simp only [Desk.step]
      rwa [List.getElem?_append_left inside]
  | answer slot io now =>
      simp only [Desk.step]
      rwa [(answer_frame uuid7 d slot io now).2.2]
  | mirror action text =>
      simp only [Desk.step]
      split <;> exact found
  | lease leased =>
      simp only [Desk.step, Desk.leaseOpens]
      split <;> exact found
  | resolve | sweep | request | revoke | cancelSetup | forget | garble | unmirror | windowEnds
  | resume | deliver | settled | park => exact found

theorem step_looks {d : Desk} {slot : Nat} {check : Check} {phase : Phase}
    (found : d.polls[slot]? = some ⟨check, phase⟩) (event : Event) :
    (d.step fromStr uuid7 event).polls[slot]? = some ⟨check, phase⟩ ∨
      ∃ io now next, event = .poll slot io now ∧
        Looks fromStr uuid7 d check io now phase next ∧
        (d.step fromStr uuid7 event).polls[slot]? = some ⟨check, next⟩ ∧
        Frame d (d.step fromStr uuid7 event) check phase next := by
  by_cases polls : ∃ slot io now, event = .poll slot io now
  · obtain ⟨turned, io, now, rfl⟩ := polls
    simp only [Desk.step]
    cases standing : d.polls[turned]? with
    | none =>
        have idle : d.poll fromStr uuid7 turned io now = d := by
          unfold Desk.poll
          rw [standing]
        rw [idle]
        exact .inl found
    | some poll =>
        obtain ⟨other, before⟩ := poll
        rcases poll_looks fromStr uuid7 standing io now with ⟨-, idle⟩ | ⟨next, looks, set, frame⟩
        · rw [idle]
          exact .inl found
        · rw [set]
          by_cases here : turned = slot
          · subst here
            cases found.symm.trans standing
            have inside : turned < d.polls.length := (List.getElem?_eq_some_iff.mp found).1
            exact .inr ⟨io, now, next, rfl, looks, List.getElem?_set_self inside, frame⟩
          · exact .inl ((List.getElem?_set_ne here).trans found)
  · push Not at polls
    exact .inl (step_polls fromStr d found event polls)

theorem step_asked (distinct : Function.Injective uuid7) {d : Desk} {slot : Nat}
    {check : Check} {lost : Prop} (at_ : AskedAt fromStr uuid7 d slot check lost) (event : Event)
    (heard : ∀ io now, event = .poll slot io now → io ≠ .answered → lost) :
    AskedAt fromStr uuid7 (d.step fromStr uuid7 event) slot check lost := by
  have transacts := step_transacts fromStr uuid7 d event
  obtain ⟨sound, refers, held, phase, found, asked⟩ := at_
  refine ⟨step_sound fromStr distinct sound event, step_refers fromStr sound refers event, ?_, ?_⟩
  · obtain ⟨row, member, fleet, holds⟩ := held
    obtain ⟨new, later, moved⟩ := gate_kept transacts member
    exact ⟨new, later, moved.fleet_eq.trans fleet, moved.event_eq.trans holds⟩
  · rcases step_looks fromStr found event with same | ⟨io, now, next, turn, looks, turned, -⟩
    · exact ⟨phase, same, asked_kept fromStr sound.gates transacts asked⟩
    · refine ⟨next, turned, asked_kept fromStr sound.gates transacts ?_⟩
      exact looks_asked fromStr sound refers held (heard io now turn) asked looks

structure AskedOnce (fromStr : String → Option Json) (slot : Nat) (check : Check) (lost : Prop)
    (t : Taken Desk Event) : Prop where
  quiet : ∀ io now, t.event = .poll slot io now →
    t.after.tables = t.before.tables ∧ (t.after.counters = t.before.counters ∨ lost)
  passes : t.after.polls[slot]? = some ⟨check, .ended .pass⟩ →
    (∃ row ∈ t.after.tables.gates, row.fleet = check.fleet ∧ row.event = some check.event ∧
      row.status = .approved) ∨ lost ∧ check.released fromStr
  refuses : t.after.polls[slot]? = some ⟨check, .ended (.refuse .denied)⟩ →
    ∃ row ∈ t.after.tables.gates, row.fleet = check.fleet ∧ row.event = some check.event ∧
      row.isPending = false ∧ row.status ≠ .approved
  /-- It ends as expired in a statement that found its gate unanswered past the deadline. -/
  expires : t.before.polls[slot]? ≠ some ⟨check, .ended (.refuse .expired)⟩ →
    t.after.polls[slot]? = some ⟨check, .ended (.refuse .expired)⟩ →
      ∃ io now, t.event = .poll slot io now ∧ ∃ row ∈ t.after.tables.gates,
        row.fleet = check.fleet ∧ row.event = some check.event ∧ row.status = .pending ∧
          row.lapsed now = true
  kills : ∀ trigger, t.after.polls[slot]? = some ⟨check, .ended (.killed trigger)⟩ → lost
  raises : t.after.polls[slot]? ≠ some ⟨check, .ended (.await .parked)⟩ ∧
    t.after.polls[slot]? ≠ some ⟨check, .ended .unavailable⟩

theorem asked_once {d : Desk} {slot : Nat} {check : Check} {lost : Prop} {event : Event}
    (before : AskedAt fromStr uuid7 d slot check lost)
    (after : AskedAt fromStr uuid7 (d.step fromStr uuid7 event) slot check lost) :
    AskedOnce fromStr slot check lost ⟨d, event, d.step fromStr uuid7 event⟩ := by
  obtain ⟨phase, found, asked⟩ := after.poll
  have same {verdict : Verdict}
      (ended : (d.step fromStr uuid7 event).polls[slot]? = some ⟨check, .ended verdict⟩) :
      phase = .ended verdict :=
    (Poll.mk.inj (Option.some.inj (found.symm.trans ended))).2
  refine ⟨?_, fun ended => ?_, fun ended => ?_, fun open_ ended => ?_, fun trigger ended => ?_,
    fun ended => ?_, fun ended => ?_⟩
  · rintro io now rfl
    obtain ⟨earlier, stood, was⟩ := before.poll
    simp only [Desk.step]
    rcases poll_looks fromStr uuid7 stood io now with ⟨-, idle⟩ | ⟨next, -, -, frame⟩
    · rw [idle]
      exact ⟨rfl, .inl rfl⟩
    · refine ⟨frame.tables.resolve_right ?_, frame.counters.imp_right ?_⟩
      · rintro ⟨stated, rfl⟩
        exact was
      · rintro ⟨state, policy, rest, rfl⟩
        exact was.1
  · rw [same ended] at asked
    rcases asked with ⟨row, member, holds, approved⟩ | released
    · exact .inl ⟨row, member, holds.1, holds.2, approved⟩
    · exact .inr released
  · rw [same ended] at asked
    obtain ⟨row, member, holds, denied⟩ := asked
    refine ⟨row, member, holds.1, holds.2,
      answered_of_answer (after.sound.gates.marked row member) denied, fun approved => ?_⟩
    rw [approved] at denied
    cases denied
  · obtain ⟨earlier, stood, was⟩ := before.poll
    rcases step_looks fromStr stood event with idle | ⟨io, now, next, turn, looks, turned, frame⟩
    · exact absurd (stood.trans (idle.symm.trans ended)) open_
    · cases (Poll.mk.inj (Option.some.inj (turned.symm.trans ended))).2
      obtain ⟨row, member, named, pending, lapsed⟩ := looks_expired fromStr was looks rfl
      have holds := holds_of_names before.sound named member rfl
      refine ⟨io, now, turn, row, ?_, holds.1, holds.2, pending, lapsed⟩
      rcases frame.tables with kept | ⟨stated, rfl⟩
      · exact kept ▸ member
      · exact (was : False).elim
  · rw [same ended] at asked
    exact asked
  · rw [same ended] at asked
    exact asked
  · rw [same ended] at asked
    exact asked

/-- In every run, a poll that begins once its event was asked about is decided by the gate the
event holds, whatever policy the poll carries and whatever stands between its statements. -/
theorem asked_stays_asked (distinct : Function.Injective uuid7) (before after : List Event)
    (check : Check)
    (asked : ∃ row ∈ (Run.final (Desk.step fromStr uuid7) Desk.start before).tables.gates,
      row.fleet = check.fleet ∧ row.event = some check.event) :
    let d := Run.final (Desk.step fromStr uuid7) Desk.start before
    ∀ t ∈ taken (Desk.step fromStr uuid7) (d.step fromStr uuid7 (.begin check)) after,
      AskedOnce fromStr d.polls.length check
        (∃ io now, .poll d.polls.length io now ∈ after ∧ io ≠ .answered) t := by
  intro d
  -- The desk is sound when the poll begins.
  have keeps : ∀ d event, Desk.Sound uuid7 d ∧ d.Refers →
      Desk.Sound uuid7 (d.step fromStr uuid7 event) ∧ (d.step fromStr uuid7 event).Refers :=
    fun d event held => ⟨step_sound fromStr distinct held.1 event,
      step_refers fromStr held.1 held.2 event⟩
  have sound : Desk.Sound uuid7 d ∧ d.Refers :=
    Run.invariant_of_step _ keeps ⟨start_sound, start_refers⟩ before d (Run.final_mem_states _ _ _)
  have begun := keeps d (.begin check) sound
  have start : AskedAt fromStr uuid7 (d.step fromStr uuid7 (.begin check)) d.polls.length check
      (∃ io now, .poll d.polls.length io now ∈ after ∧ io ≠ .answered) := by
    refine ⟨begun.1, begun.2, asked, .looking, ?_, trivial⟩
    simp [Desk.step]
  -- A statement of the poll that went unanswered is one of the run's events.
  have along : ∀ rest, (∀ event ∈ rest, event ∈ after) → ∀ e,
      AskedAt fromStr uuid7 e d.polls.length check
        (∃ io now, .poll d.polls.length io now ∈ after ∧ io ≠ .answered) →
      ∀ t ∈ taken (Desk.step fromStr uuid7) e rest, AskedOnce fromStr d.polls.length check
        (∃ io now, .poll d.polls.length io now ∈ after ∧ io ≠ .answered) t := by
    intro rest
    induction rest with
    | nil => exact fun _ _ _ t member => absurd member List.not_mem_nil
    | cons event rest ih =>
        intro within e at_ t member
        have next := step_asked fromStr distinct at_ event fun io now same failed =>
          ⟨io, now, same ▸ within event List.mem_cons_self, failed⟩
        rcases List.mem_cons.mp member with rfl | later
        · exact asked_once fromStr at_ next
        · exact ih (fun other inside => within other (List.mem_cons_of_mem _ inside)) _ next t later
  exact along after (fun _ member => member) _ start

def parkedRun : List Event :=
  [.begin guarded, .poll 0 .answered 0, .poll 0 .answered 0, .poll 0 .answered 1,
    .poll 0 .answered 1]

def emptied : Check := { guarded with gates := none }

/-- The gate outranks the emptied policy: the second poll waits, and passes once approved. -/
theorem asked_stays_asked_emptied :
    let d := Run.final (Desk.step (fun _ => none) serial) Desk.start parkedRun
    ∃ t ∈ taken (Desk.step (fun _ => none) serial) (d.step (fun _ => none) serial (.begin emptied))
        [asks .approved "first", .answer 0 .answered 2, .poll 1 .answered 3, .poll 1 .answered 3,
          .poll 1 .answered 3],
      t.after.tables.gates.map Gate.status = [.approved] ∧
        AskedOnce (fun _ => none) 1 emptied
          (∃ io now, .poll 1 io now ∈ [asks .approved "first", .answer 0 .answered 2,
            .poll 1 .answered 3, .poll 1 .answered 3, .poll 1 .answered 3] ∧ io ≠ .answered) t := by
  intro d
  refine ⟨_, List.mem_of_getElem? (i := 4) rfl, ?_, ?_⟩
  · decide
  · exact asked_stays_asked (fun _ => none) serial_injective parkedRun _ emptied
      ⟨_, List.mem_singleton_self _, rfl, rfl⟩ _ (List.mem_of_getElem? (i := 4) rfl)

end Asked

end Agentsfleet.Approval
