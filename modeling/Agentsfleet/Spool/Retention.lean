import Agentsfleet.Library.Run
import Agentsfleet.Spool.Report
import Mathlib.Tactic.Tauto

/-!
# No report leaves the spool unanswered

What becomes of a report depends only on where its copies stand and on whether
the daemon ever settled it: `Standing` is that abstraction, one for each name.
Every operation on the directory acts on the standing of one name and leaves
every other name's alone, so the whole argument is a case analysis on four
flags, carried to runs by the step lemma.
-/

set_option autoImplicit false

namespace Agentsfleet.Spool

open Agentsfleet.Core Agentsfleet.Library

/-! ## One report's standing -/

/-- Which of its two names a report stands under, whether it ever stood under
one, and whether the daemon gave an answer that settles it. -/
structure Standing where
  json : Bool
  rejected : Bool
  held : Bool
  settled : Bool
deriving DecidableEq

namespace Standing

def Safe (s : Standing) : Prop :=
  s.held = true → s.json = true ∨ s.rejected = true ∨ s.settled = true

instance (s : Standing) : Decidable s.Safe := by unfold Safe; infer_instance

def write (s : Standing) : Written → Standing
  | .failed => s
  | .durable | .unsynced => { s with json := true, held := true }

def answer (s : Standing) (answer : Answer) : Standing :=
  { s with settled := answer.conclusive || s.settled }

def forget (s : Standing) : Disk → Standing
  | .done => { s with rejected := false }
  | .failed => s

def remove (s : Standing) (disk : Disk) (delivery : Delivery) :
    Except Failure Delivery × Standing :=
  match s.json, disk with
  | true, .failed => (.error .io, s)
  | _, _ => (.ok delivery, { s with json := false })

def setAside (s : Standing) (disk : Disk) (refusal : Failure) :
    Except Failure Delivery × Standing :=
  match s.json, disk with
  | true, .done => (.ok (.rejected refusal), { s with json := false, rejected := true })
  | _, _ => (.error .io, s)

def deliver (s : Standing) (turn : World.Exchange) : Except Failure Delivery × Standing :=
  let s := s.answer turn.answer
  match turn.answer with
  | .ok () => s.remove turn.disk .settled
  | .error failure =>
      if failure.kept then (.ok (.kept failure), s)
      else if failure.settles then s.remove turn.disk .superseded
      else s.setAside turn.disk failure

end Standing

namespace World

variable {Bytes : Type}

def standing (world : World Bytes) (name : String) : Standing where
  json := (world.json.get name).isSome
  rejected := (world.rejected.get name).isSome
  held := world.held.contains name
  settled := world.answers.any fun entry => entry.1 == name && entry.2.conclusive

/-- Every report that was ever in the spool has a copy there, or the daemon
answered it for good. -/
def Accounted (world : World Bytes) : Prop := ∀ name ∈ world.held, (world.standing name).Safe

instance (world : World Bytes) : Decidable world.Accounted := by
  unfold Accounted; infer_instance

theorem accounted_iff (world : World Bytes) :
    world.Accounted ↔ ∀ name, (world.standing name).Safe := by
  constructor
  · intro accounted name held
    exact accounted name (by simpa [standing] using held) held
  · exact fun safe name _ => safe name

/-! ## Each operation touches one standing -/

theorem standing_written (world : World Bytes) (name other : String) (bytes : Bytes) :
    (world.written name bytes).standing other =
      if other = name then (world.standing other).write .durable else world.standing other := by
  by_cases same : other = name <;> simp [standing, written, Standing.write, same]

theorem standing_answered (world : World Bytes) (name other : String) (answer : Answer) :
    (world.answered name answer).standing other =
      if other = name then (world.standing other).answer answer else world.standing other := by
  by_cases same : other = name
  · subst same
    simp [standing, answered, Standing.answer]
  · have differ : (name == other) = false := beq_eq_false_iff_ne.mpr (Ne.symm same)
    simp [standing, answered, same, differ]

theorem standing_hold (world : World Bytes) (lease : Uuid7) (bytes : Bytes) (outcome : Written)
    (other : String) :
    (world.hold lease bytes outcome).2.standing other =
      if other = lease.text then (world.standing other).write outcome
      else world.standing other := by
  cases outcome with
  | durable => exact standing_written world lease.text other bytes
  | unsynced => exact standing_written world lease.text other bytes
  | failed => simp [hold, Standing.write]

theorem standing_forgetRejected (world : World Bytes) (lease : Uuid7) (disk : Disk)
    (other : String) :
    (world.forgetRejected lease disk).standing other =
      if other = lease.text then (world.standing other).forget disk
      else world.standing other := by
  cases disk with
  | done =>
      by_cases same : other = lease.text
      · simp [standing, forgetRejected, Standing.forget, same]
      · simp [standing, forgetRejected, same]
  | failed => simp [forgetRejected, Standing.forget]

theorem standing_removeEntry (world : World Bytes) (name other : String) (disk : Disk)
    (delivery : Delivery) :
    (world.removeEntry name disk delivery).1 =
        ((world.standing name).remove disk delivery).1 ∧
      (world.removeEntry name disk delivery).2.standing other =
        if other = name then ((world.standing other).remove disk delivery).2
        else world.standing other := by
  cases found : world.json.get name <;> cases disk <;> by_cases same : other = name <;>
    simp [standing, removeEntry, Standing.remove, found, same]

theorem standing_setAside (world : World Bytes) (name other : String) (disk : Disk)
    (refusal : Failure) :
    (world.setAside name disk refusal).1 = ((world.standing name).setAside disk refusal).1 ∧
      (world.setAside name disk refusal).2.standing other =
        if other = name then ((world.standing other).setAside disk refusal).2
        else world.standing other := by
  cases found : world.json.get name <;> cases disk <;> by_cases same : other = name <;>
    simp [standing, setAside, Standing.setAside, found, same]

theorem standing_deliver (world : World Bytes) (name other : String) (turn : Exchange) :
    (world.deliver name turn).1 = ((world.standing name).deliver turn).1 ∧
      (world.deliver name turn).2.standing other =
        if other = name then ((world.standing other).deliver turn).2
        else world.standing other := by
  have asked := standing_answered world name
  obtain ⟨answer, disk⟩ := turn
  unfold deliver Standing.deliver
  cases answer with
  | ok taken =>
      obtain ⟨same, moved⟩ :=
        standing_removeEntry (world.answered name (.ok taken)) name other disk .settled
      simp only [same, moved, asked]
      constructor
      · simp
      · split <;> rfl
  | error failure =>
      simp only
      split
      · simp [asked]
      · split
        · obtain ⟨same, moved⟩ :=
            standing_removeEntry (world.answered name (.error failure)) name other disk .superseded
          simp only [same, moved, asked]
          exact ⟨by simp, by split <;> rfl⟩
        · obtain ⟨same, moved⟩ :=
            standing_setAside (world.answered name (.error failure)) name other disk failure
          simp only [same, moved, asked]
          exact ⟨by simp, by split <;> rfl⟩

end World

/-! ## A visit of the drain, and what it must not do -/

namespace Standing

/-- `Drainer::reshape` on one standing, once the report can be reshaped. -/
def reshape (s : Standing) (refusal : Failure) (turn : Replacement) :
    Except Failure Delivery × Standing :=
  match turn.written with
  | .durable =>
      let (delivered, s) := (s.write .durable).deliver turn.exchange
      (delivered, s.forget turn.forget)
  | outcome => (.ok (.rejected refusal), s.write outcome)

/-- One held report's visit on its standing; `reshapes` says for which refusals
the report can be reshaped and its file names a lease. -/
def visit (s : Standing) (reshapes : Failure → Bool) (turn : World.Visit) :
    Except Failure Delivery × Standing :=
  match s.deliver turn.first with
  | (.ok (.rejected refusal), s) =>
      if reshapes refusal then s.reshape refusal turn.replacement
      else (.ok (.rejected refusal), s)
  | delivered => delivered

/-- The daemon refuses a report's reshaped copy for good, that copy is moved
aside, and the refused copy's name is then removed. -/
def Loses (s : Standing) (reshapes : Failure → Bool) (turn : World.Visit) : Prop :=
  s.json = true ∧ s.settled = false ∧
    (∃ refusal, turn.first.answer = .error refusal ∧ reshapes refusal = true) ∧
    turn.first.answer.rejects = true ∧ turn.first.disk = .done ∧
    turn.replacement.written = .durable ∧
    turn.replacement.exchange.answer.rejects = true ∧
    turn.replacement.exchange.disk = .done ∧ turn.replacement.forget = .done

theorem answer_of_rejects (s : Standing) {answer : Answer} (rejects : answer.rejects = true) :
    s.answer answer = s := by
  cases answer with
  | ok taken => simp [Answer.rejects] at rejects
  | error failure =>
      simp only [Answer.rejects, Bool.and_eq_true, Bool.not_eq_true'] at rejects
      simp [Standing.answer, Answer.conclusive, rejects.2]

/-- A report the daemon cannot read is moved aside, and nothing else happens. -/
theorem deliver_of_rejects (s : Standing) (turn : World.Exchange) {refusal : Failure}
    (answered : turn.answer = .error refusal) (rejects : turn.answer.rejects = true) :
    s.deliver turn = s.setAside turn.disk refusal := by
  have unmoved := s.answer_of_rejects rejects
  rw [answered] at rejects unmoved
  simp only [Answer.rejects, Bool.and_eq_true, Bool.not_eq_true'] at rejects
  simp [deliver, answered, rejects.1, rejects.2, unmoved]

structure Delivered (s : Standing) (d : Except Failure Delivery × Standing) : Prop where
  notRejected : ∀ refusal, d.1 ≠ .ok (.rejected refusal)
  copy : s.json = true → d.2.json = true ∨ d.2.settled = true
  rejected : d.2.rejected = s.rejected
  held : d.2.held = s.held
  settled : s.settled = true → d.2.settled = true

theorem remove_delivered (s : Standing) (disk : Disk) (delivery : Delivery)
    (named : ∀ refusal, delivery ≠ .rejected refusal) {conclusive : Bool}
    (settled : conclusive = true) :
    Delivered s (({ s with settled := conclusive || s.settled }).remove disk delivery) := by
  subst settled
  obtain ⟨json, rejected, held, settled⟩ := s
  cases json <;> cases disk <;> constructor <;> simp [remove, named]

theorem deliver_of_not_rejects (s : Standing) (turn : World.Exchange)
    (taken : turn.answer.rejects = false) : Delivered s (s.deliver turn) := by
  obtain ⟨answer, disk⟩ := turn
  cases answer with
  | ok done =>
      exact remove_delivered s disk .settled (by simp) rfl
  | error failure =>
      simp only [Answer.rejects, Bool.and_eq_false_iff, Bool.not_eq_false'] at taken
      by_cases keeps : failure.kept = true
      · simp only [deliver, keeps, if_true]
        constructor <;> simp_all [Standing.answer]
      · have settles : failure.settles = true := taken.resolve_left (by simpa using keeps)
        simp only [deliver, settles, if_true, keeps]
        exact remove_delivered s disk .superseded (by simp) settles

theorem Delivered.safe {s : Standing} {d : Except Failure Delivery × Standing}
    (delivered : Delivered s d) (safe : s.Safe) : d.2.Safe := by
  intro held
  rw [delivered.held] at held
  rcases safe held with json | rejected | settled
  · exact (delivered.copy json).imp id Or.inr
  · exact Or.inr (Or.inl (delivered.rejected.trans rejected))
  · exact Or.inr (Or.inr (delivered.settled settled))

theorem write_safe (s : Standing) (outcome : Written) (safe : s.Safe) :
    (s.write outcome).Safe := by
  cases outcome <;> simp_all [write, Safe]

/-- A spooled replacement is lost exactly when the daemon refuses it for good,
its copy is moved aside, and the name it was moved to is removed. -/
theorem replacement_safe_iff (s : Standing) (turn : World.Exchange) (disk : Disk) :
    (((s.write .durable).deliver turn).2.forget disk).Safe ↔
      ¬ (s.settled = false ∧ turn.answer.rejects = true ∧ turn.disk = .done ∧ disk = .done) := by
  cases rejects : turn.answer.rejects with
  | false =>
      have delivered := (s.write .durable).deliver_of_not_rejects _ rejects
      have kept : (((s.write .durable).deliver turn).2.forget disk).Safe := by
        intro _
        have copy := delivered.copy rfl
        cases disk with
        | done => exact copy.imp id Or.inr
        | failed => exact copy.imp id Or.inr
      simp [kept]
  | true =>
      cases answered : turn.answer with
      | ok taken => simp [answered, Answer.rejects] at rejects
      | error refusal =>
          rw [deliver_of_rejects _ _ answered rejects]
          cases moved : turn.disk <;> cases disk <;> cases settled : s.settled <;>
            simp [setAside, write, forget, Safe, settled]

theorem visit_safe_iff (s : Standing) (reshapes : Failure → Bool) (turn : World.Visit)
    (safe : s.Safe) :
    (s.visit reshapes turn).2.Safe ↔ ¬ s.Loses reshapes turn := by
  cases rejects : turn.first.answer.rejects with
  | false =>
      have delivered := s.deliver_of_not_rejects _ rejects
      have asDelivered : s.visit reshapes turn = s.deliver turn.first := by
        unfold visit
        split
        · rename_i refusal _ same
          exact absurd (congrArg Prod.fst same) (delivered.notRejected refusal)
        · rfl
      rw [asDelivered]
      exact ⟨fun _ lost => by simp [lost.2.2.2.1] at rejects, fun _ => delivered.safe safe⟩
  | true =>
      cases answered : turn.first.answer with
      | ok taken => simp [answered, Answer.rejects] at rejects
      | error refusal =>
          have first := s.deliver_of_rejects _ answered rejects
          cases json : s.json with
          | false =>
              have stays : s.visit reshapes turn = (.error .io, s) := by
                simp [visit, first, setAside, json]
              rw [stays]
              exact ⟨fun _ lost => by simp [lost.1] at json, fun _ => safe⟩
          | true =>
              cases disk : turn.first.disk with
              | failed =>
                  have stays : s.visit reshapes turn = (.error .io, s) := by
                    simp [visit, first, setAside, json, disk]
                  rw [stays]
                  exact ⟨fun _ lost => by simp [lost.2.2.2.2.1] at disk, fun _ => safe⟩
              | done =>
                  cases again : reshapes refusal with
                  | false =>
                      simp [visit, first, setAside, json, disk, again, Safe, Loses, answered]
                  | true =>
                      cases written : turn.replacement.written with
                      | durable =>
                          simp only [visit, reshape, first, setAside, json, disk, again, written,
                            if_true]
                          have refused : Answer.rejects (.error refusal) = true :=
                            answered ▸ rejects
                          rw [replacement_safe_iff]
                          simp [Loses, json, disk, answered, again, written, refused]
                      | unsynced =>
                          simp [visit, reshape, first, setAside, json, disk, again, written, write,
                            Safe, Loses]
                      | failed =>
                          simp [visit, reshape, first, setAside, json, disk, again, written, write,
                            Safe, Loses]

/-! ## A settle, and what its fall-back must not do -/

/-- `LeaseRun::post` on one standing. -/
def post (s : Standing) (turn : Post) : Posted × Standing :=
  match turn.written with
  | .durable =>
      let (delivered, s) := (s.write .durable).deliver turn.exchange
      (World.postedOf delivered, s)
  | outcome =>
      let s := (s.write outcome).answer turn.exchange.answer
      match turn.exchange.answer with
      | .ok () => (.recorded, s)
      | .error lost => (Posted.refused lost, s)

variable {Bytes : Type}

/-- `LeaseRun::settle` on one standing. -/
def settle (s : Standing) (run : Settle Bytes) : Standing :=
  match s.post run.first with
  | (.shapeRefused, s) =>
      if run.onePost then ((s.post run.second).2).forget run.forget else s
  | (_, s) => s

/-- The fall-back's plain copy is lost: the daemon refuses it for good and it is
moved aside, or it could not be spooled and went out unanswered with no copy
under the report's first name. -/
def LosesPlain (s : Standing) (second : Post) : Prop :=
  s.settled = false ∧
    match second.written with
    | .durable => second.exchange.answer.rejects = true ∧ second.exchange.disk = .done
    | .unsynced => False
    | .failed =>
        s.held = true ∧ s.json = false ∧ second.exchange.answer.conclusive = false

/-- The daemon refuses the one-post body for its shape; where it was spooled, it
is moved aside. -/
def ShapeRefused (first : Post) : Prop :=
  (∃ refusal, first.exchange.answer = .error refusal ∧ refusal.code = invalidRequest) ∧
    (first.written = .durable →
      first.exchange.answer.rejects = true ∧ first.exchange.disk = .done)

/-- A settle loses its report: no answer had settled it, the one-post body is
refused for its shape, the plain copy is itself refused for good and moved aside
(or is never spooled, goes out unanswered and leaves the refused copy the only
one), and the refused copy's name is then removed. -/
def SettleLoses (s : Standing) (run : Settle Bytes) : Prop :=
  run.onePost = true ∧ s.settled = false ∧ ShapeRefused run.first ∧ run.forget = .done ∧
    match run.second.written, run.first.written with
    | .durable, _ =>
        run.second.exchange.answer.rejects = true ∧ run.second.exchange.disk = .done
    | .failed, .durable => run.second.exchange.answer.conclusive = false
    | .failed, .failed =>
        run.second.exchange.answer.conclusive = false ∧ s.held = true ∧ s.json = false
    | .unsynced, _ | .failed, .unsynced => False

theorem answer_safe (s : Standing) (answer : Answer) (safe : s.Safe) : (s.answer answer).Safe := by
  intro held
  rcases safe held with json | rejected | settled
  · exact Or.inl json
  · exact Or.inr (Or.inl rejected)
  · exact Or.inr (Or.inr (by simp [Standing.answer, settled]))

theorem setAside_safe (s : Standing) (disk : Disk) (refusal : Failure) (safe : s.Safe) :
    (s.setAside disk refusal).2.Safe := by
  obtain ⟨json, rejected, held, settled⟩ := s
  cases json <;> cases disk <;> simp_all [setAside, Safe]

theorem deliver_safe (s : Standing) (turn : World.Exchange) (safe : s.Safe) :
    (s.deliver turn).2.Safe := by
  cases rejects : turn.answer.rejects with
  | false => exact (s.deliver_of_not_rejects _ rejects).safe safe
  | true =>
      cases answered : turn.answer with
      | ok taken => simp [answered, Answer.rejects] at rejects
      | error refusal =>
          rw [s.deliver_of_rejects _ answered rejects]
          exact s.setAside_safe turn.disk refusal safe

theorem post_safe (s : Standing) (turn : Post) (safe : s.Safe) : (s.post turn).2.Safe := by
  unfold post
  split
  · exact deliver_safe _ _ (write_safe _ _ safe)
  · have answered := answer_safe _ turn.exchange.answer (write_safe s turn.written safe)
    split <;> exact answered

theorem post_unspooled_standing (s : Standing) (turn : Post) (unspooled : turn.written ≠ .durable) :
    (s.post turn).2 = (s.write turn.written).answer turn.exchange.answer := by
  unfold post
  split
  · contradiction
  · split <;> rfl

/-- The plain copy's post followed by the removal keeps the report exactly when
the plain copy is not lost. -/
theorem fallBack_safe_iff (s : Standing) (second : Post) (disk : Disk) (safe : s.Safe) :
    ((s.post second).2.forget disk).Safe ↔ ¬ (s.LosesPlain second ∧ disk = .done) := by
  cases disk with
  | failed =>
      have kept := s.post_safe second safe
      simpa [forget] using kept
  | done =>
      cases written : second.written with
      | durable =>
          have posted : (s.post second).2 = ((s.write .durable).deliver second.exchange).2 := by
            simp [post, written]
          rw [posted, replacement_safe_iff]
          simp [LosesPlain, written]
      | unsynced =>
          rw [s.post_unspooled_standing second (by simp [written])]
          simp [written, write, forget, Standing.answer, Safe, LosesPlain]
      | failed =>
          rw [s.post_unspooled_standing second (by simp [written])]
          simp only [written, write, forget, Standing.answer, Safe, LosesPlain]
          cases s.held <;> cases s.json <;> cases s.settled <;>
            cases second.exchange.answer.conclusive <;> simp

theorem not_settles_of_invalidRequest {refusal : Failure}
    (shape : refusal.code = invalidRequest) : refusal.settles = false := by
  cases refusal with
  | transport => rfl
  | unavailable status => rfl
  | io => rfl
  | refused status code =>
      cases code with
      | none => rfl
      | some code =>
          have named : code = invalidRequest := shape
          have absent : settledBy.contains invalidRequest = false := by decide
          simp only [Failure.settles, Failure.refusalCode, named, Option.any_some, absent]

theorem posted_refused_eq_shapeRefused (refusal : Failure) :
    Posted.refused refusal = .shapeRefused ↔ refusal.code = invalidRequest := by
  unfold Posted.refused
  split <;> simp_all

theorem post_shapeRefused_iff (s : Standing) (first : Post) :
    (s.post first).1 = .shapeRefused ↔ ShapeRefused first := by
  obtain ⟨written, answer, disk⟩ := first
  have unspooled : ∀ outcome, outcome ≠ Written.durable →
      ((s.post ⟨outcome, answer, disk⟩).1 = .shapeRefused ↔
        ∃ refusal, answer = .error refusal ∧ refusal.code = invalidRequest) := by
    intro outcome direct
    cases answer <;> cases outcome <;>
      simp_all [post, posted_refused_eq_shapeRefused]
  cases written with
  | unsynced => simpa [ShapeRefused] using unspooled .unsynced (by simp)
  | failed => simpa [ShapeRefused] using unspooled .failed (by simp)
  | durable =>
      cases rejects : answer.rejects with
      | false =>
          have delivered := (s.write .durable).deliver_of_not_rejects
            ⟨answer, disk⟩ rejects
          constructor
          · intro posted
            unfold post at posted
            simp only at posted
            rcases result : ((s.write .durable).deliver ⟨answer, disk⟩).1 with failure | delivery
            · simp [result, World.postedOf] at posted
            · cases delivery with
              | rejected refusal => exact absurd result (delivered.notRejected refusal)
              | settled => simp [result, World.postedOf] at posted
              | superseded => simp [result, World.postedOf] at posted
              | kept failure => simp [result, World.postedOf] at posted
          · intro refused
            exact absurd (refused.2 rfl).1 (by simp [rejects])
      | true =>
          cases answered : answer with
          | ok taken => simp [answered, Answer.rejects] at rejects
          | error refusal =>
              rw [answered] at rejects
              have moved := (s.write .durable).deliver_of_rejects
                ⟨.error refusal, disk⟩ rfl rejects
              simp only [post, moved]
              cases disk <;>
                simp [setAside, write, World.postedOf, ShapeRefused, rejects,
                  posted_refused_eq_shapeRefused]

theorem post_of_shapeRefused (s : Standing) (first : Post) (refused : ShapeRefused first) :
    (s.post first).2.settled = s.settled ∧
      (s.post first).2.held = (s.held || first.written != .failed) ∧
      (s.post first).2.json =
        match first.written with
        | .durable => false
        | .unsynced => true
        | .failed => s.json := by
  obtain ⟨written, answer, disk⟩ := first
  obtain ⟨⟨refusal, answered, shape⟩, aside⟩ := refused
  simp only at answered
  subst answered
  have settles := not_settles_of_invalidRequest shape
  cases written with
  | durable =>
      obtain ⟨rejects, done⟩ := aside rfl
      simp only at done rejects
      subst done
      have moved := (s.write .durable).deliver_of_rejects
        ⟨.error refusal, .done⟩ rfl rejects
      simp only [post, moved]
      simp [setAside, write]
  | unsynced => simp [post, write, Standing.answer, Answer.conclusive, settles]
  | failed => simp [post, write, Standing.answer, Answer.conclusive, settles]

theorem settleLoses_iff (s : Standing) (run : Settle Bytes) :
    s.SettleLoses run ↔
      run.onePost = true ∧ (s.post run.first).1 = .shapeRefused ∧
        (s.post run.first).2.LosesPlain run.second ∧ run.forget = .done := by
  rw [post_shapeRefused_iff]
  by_cases refused : ShapeRefused run.first
  · obtain ⟨settled, held, json⟩ := s.post_of_shapeRefused run.first refused
    unfold SettleLoses LosesPlain
    rw [settled, held, json]
    cases run.second.written <;> cases run.first.written <;> simp [refused] <;> tauto
  · simp [SettleLoses, refused]

/-- One settle keeps its report exactly when it does not lose the plain copy. -/
theorem settle_safe_iff (s : Standing) (run : Settle Bytes) (safe : s.Safe) :
    (s.settle run).Safe ↔ ¬ s.SettleLoses run := by
  rw [settleLoses_iff]
  have first := s.post_safe run.first safe
  unfold settle
  rcases posted : s.post run.first with ⟨outcome, after⟩
  rw [posted] at first
  cases outcome with
  | recorded => simpa using first
  | lost => simpa using first
  | shapeRefused =>
      cases one : run.onePost with
      | false => simpa using first
      | true => simpa using fallBack_safe_iff after run.second run.forget first

end Standing

/-! ## The operations of the directory on its reports' standings -/

namespace World

variable {Bytes : Type} (codec : Codec Bytes)

/-- The refusals a spooled report is reshaped for: a shape refusal of a body
that carried memory or segments, under a file a lease id names. -/
def reshapes (spooled : Spooled Bytes) (refusal : Failure) : Bool :=
  (reshaped codec refusal spooled.bytes).isSome && (Uuid7.parse spooled.name).isSome

theorem standing_deliver_self (world : World Bytes) (name : String) (turn : Exchange) :
    (world.standing name).deliver turn =
      ((world.deliver name turn).1, (world.deliver name turn).2.standing name) := by
  obtain ⟨result, moved⟩ := standing_deliver world name name turn
  rw [if_pos rfl] at moved
  exact Prod.ext result.symm moved.symm

theorem standing_deliver_other (world : World Bytes) {name other : String} (turn : Exchange)
    (differ : other ≠ name) :
    (world.deliver name turn).2.standing other = world.standing other := by
  rw [(standing_deliver world name other turn).2, if_neg differ]

theorem standing_reshape_self (world : World Bytes) (spooled : Spooled Bytes) (refusal : Failure)
    (turn : Replacement) :
    (world.reshape codec spooled refusal turn).2.standing spooled.name =
      if reshapes codec spooled refusal then
        ((world.standing spooled.name).reshape refusal turn).2
      else world.standing spooled.name := by
  unfold reshape reshapes
  cases shape : reshaped codec refusal spooled.bytes with
  | none => simp
  | some plain =>
      cases parsed : Uuid7.parse spooled.name with
      | none => simp
      | some lease =>
          have named := Uuid7.parse_text parsed
          have written := standing_written world lease.text lease.text plain
          rw [if_pos rfl, named] at written
          cases outcome : turn.written with
          | durable =>
              simp only [Standing.reshape, outcome, hold, named, Option.isSome_some, Bool.and_true,
                if_true]
              rw [standing_forgetRejected, named, if_pos rfl, ← written, standing_deliver_self]
          | unsynced =>
              simp only [Standing.reshape, outcome, hold, named, Option.isSome_some, Bool.and_true,
                if_true]
              exact written
          | failed => simp [Standing.reshape, outcome, hold, Standing.write]

theorem standing_reshape_other (world : World Bytes) (spooled : Spooled Bytes) (refusal : Failure)
    (turn : Replacement) {other : String} (differ : other ≠ spooled.name) :
    (world.reshape codec spooled refusal turn).2.standing other = world.standing other := by
  unfold reshape
  cases reshaped codec refusal spooled.bytes with
  | none => rfl
  | some plain =>
      cases parsed : Uuid7.parse spooled.name with
      | none => rfl
      | some lease =>
          have named := Uuid7.parse_text parsed
          have held := standing_hold world lease plain turn.written other
          rw [named, if_neg differ] at held
          cases outcome : turn.written with
          | durable =>
              rw [outcome] at held
              simp only [hold, named] at held ⊢
              rw [standing_forgetRejected, named, if_neg differ, standing_deliver_other _ _ differ]
              exact held
          | unsynced => simpa [hold, outcome] using held
          | failed => rfl

theorem standing_visit_self (world : World Bytes) (spooled : Spooled Bytes) (turn : Visit) :
    (world.visit codec spooled turn).2.standing spooled.name =
      ((world.standing spooled.name).visit (reshapes codec spooled) turn).2 := by
  unfold visit Standing.visit
  rw [standing_deliver_self]
  rcases world.deliver spooled.name turn.first with ⟨outcome, after⟩
  split
  · rename_i refusal moved same
    cases same
    rw [standing_reshape_self]
    by_cases again : reshapes codec spooled refusal = true <;> simp [again]
  · rename_i delivered rest
    rcases outcome with failure | delivery
    · rfl
    · cases delivery with
      | rejected refusal => exact absurd rfl (rest refusal after)
      | settled => rfl
      | superseded => rfl
      | kept failure => rfl

theorem standing_visit_other (world : World Bytes) (spooled : Spooled Bytes) (turn : Visit)
    {other : String} (differ : other ≠ spooled.name) :
    (world.visit codec spooled turn).2.standing other = world.standing other := by
  have first := standing_deliver_other world turn.first differ
  unfold visit
  split
  · rename_i refusal after same
    rw [standing_reshape_other codec after spooled refusal turn.replacement differ]
    simpa [same] using first
  · exact first

/-! ## A pass, a settle, and a step -/

/-- A pass, from here on, loses no reshaped copy it posts. -/
def DrainKeeps : List (Spooled Bytes × Visit) → World Bytes → Prop
  | [], _ => True
  | (spooled, turn) :: rest, world =>
      ¬ (world.standing spooled.name).Loses (reshapes codec spooled) turn ∧
        (stopsOn (world.visit codec spooled turn).1 = false →
          DrainKeeps rest (world.visit codec spooled turn).2)

theorem standing_drain_other (visits : List (Spooled Bytes × Visit)) (world : World Bytes)
    {other : String} (outside : other ∉ visits.map fun entry => entry.1.name) :
    (drain codec visits world).standing other = world.standing other := by
  induction visits generalizing world with
  | nil => rfl
  | cons entry rest ih =>
      obtain ⟨spooled, turn⟩ := entry
      simp only [List.map_cons, List.mem_cons, not_or] at outside
      have here := standing_visit_other codec world spooled turn outside.1
      simp only [drain]
      split
      · exact here
      · exact (ih _ outside.2).trans here

theorem visit_accounted_iff (world : World Bytes) (spooled : Spooled Bytes) (turn : Visit)
    (accounted : world.Accounted) :
    (world.visit codec spooled turn).2.Accounted ↔
      ¬ (world.standing spooled.name).Loses (reshapes codec spooled) turn := by
  have safe := (accounted_iff world).mp accounted
  rw [accounted_iff, ← Standing.visit_safe_iff _ _ _ (safe spooled.name),
    ← standing_visit_self]
  constructor
  · exact fun all => all spooled.name
  · intro own name
    by_cases same : name = spooled.name
    · exact same ▸ own
    · rw [standing_visit_other codec world spooled turn same]
      exact safe name

/-- The visits of one pass are of different files, so what one of them loses no
later one restores. -/
theorem drain_accounted_iff (visits : List (Spooled Bytes × Visit)) (world : World Bytes)
    (distinct : (visits.map fun entry => entry.1.name).Nodup) (accounted : world.Accounted) :
    (drain codec visits world).Accounted ↔ DrainKeeps codec visits world := by
  induction visits generalizing world with
  | nil => simpa [drain, DrainKeeps] using accounted
  | cons entry rest ih =>
      obtain ⟨spooled, turn⟩ := entry
      rw [List.map_cons, List.nodup_cons] at distinct
      obtain ⟨outside, distinct⟩ := distinct
      have here := visit_accounted_iff codec world spooled turn accounted
      simp only [drain, DrainKeeps]
      cases stops : stopsOn (world.visit codec spooled turn).1 with
      | true => simpa using here
      | false =>
          simp only [Bool.false_eq_true, if_false, true_implies]
          constructor
          · intro after
            have kept : (world.visit codec spooled turn).2.Accounted := by
              rw [here, ← Standing.visit_safe_iff _ _ _ ((accounted_iff world).mp accounted _),
                ← standing_visit_self]
              have own := (accounted_iff _).mp after spooled.name
              rwa [standing_drain_other codec rest _ outside] at own
            exact ⟨here.mp kept, (ih _ distinct kept).mp after⟩
          · rintro ⟨first, later⟩
            exact (ih _ distinct (here.mpr first)).mpr later

theorem listed_names (world : World Bytes) (visits : List (String × Visit))
    (listing : (visits.map Prod.fst).Perm world.json.keys) :
    ((world.listed visits).map fun entry => entry.1.name).Nodup := by
  have names : (visits.map Prod.fst).Nodup := listing.nodup_iff.mpr world.json.keys_nodup
  have sub : ((world.listed visits).map fun entry => entry.1.name).Sublist
      (visits.map Prod.fst) := by
    clear listing names
    induction visits with
    | nil => exact List.Sublist.refl _
    | cons entry rest ih =>
        unfold listed at ih ⊢
        cases found : world.json.get entry.1 with
        | none => simpa [found] using ih.cons entry.1
        | some bytes => simpa [found] using ih.cons_cons entry.1
  exact names.sublist sub

theorem standing_post (world : World Bytes) (lease : Uuid7) (bytes : Bytes) (turn : Post) :
    (world.standing lease.text).post turn =
        ((world.post lease bytes turn).1, (world.post lease bytes turn).2.standing lease.text) ∧
      ∀ other, other ≠ lease.text →
        (world.post lease bytes turn).2.standing other = world.standing other := by
  have held := standing_hold world lease bytes turn.written
  have own := held lease.text
  rw [if_pos rfl] at own
  have direct : turn.written ≠ .durable →
      (world.hold lease bytes turn.written).1 = none := by
    cases turn.written <;> simp [hold]
  cases outcome : turn.written with
  | durable =>
      have spooled : world.hold lease bytes .durable =
          (some ⟨lease.text, bytes⟩, world.written lease.text bytes) := rfl
      rw [outcome, spooled] at own held
      simp only [Standing.post, post, outcome, spooled]
      rw [← own, standing_deliver_self]
      refine ⟨rfl, fun other differ => ?_⟩
      rw [standing_deliver_other _ _ differ]
      exact (held other).trans (if_neg differ)
  | unsynced | failed =>
      have absent := direct (by simp [outcome])
      rw [outcome] at own held absent
      rcases unspooled : world.hold lease bytes _ with ⟨copy, after⟩
      rw [unspooled] at own held absent
      simp only at absent own held
      subst absent
      have asked := standing_answered after lease.text
      simp only [Standing.post, post, outcome, unspooled, postUnspooled]
      rw [← own]
      constructor
      · cases answered : turn.exchange.answer <;> simp [asked]
      · intro other differ
        have unmoved := (asked other turn.exchange.answer).trans (if_neg differ)
        cases answered : turn.exchange.answer <;>
          · rw [answered] at unmoved
            exact unmoved.trans ((held other).trans (if_neg differ))

theorem standing_settle_self (world : World Bytes) (run : Settle Bytes) :
    (world.settle run).standing run.lease.text =
      (world.standing run.lease.text).settle run := by
  unfold settle Standing.settle
  rw [(standing_post world run.lease run.body run.first).1]
  rcases world.post run.lease run.body run.first with ⟨posted, after⟩
  cases posted with
  | recorded => rfl
  | lost => rfl
  | shapeRefused =>
      cases one : run.onePost with
      | false => rfl
      | true =>
          simp only [if_true, fallBack]
          rw [standing_forgetRejected, if_pos rfl,
            (standing_post after run.lease run.plain run.second).1]

theorem standing_settle_other (world : World Bytes) (run : Settle Bytes) {other : String}
    (differ : other ≠ run.lease.text) :
    (world.settle run).standing other = world.standing other := by
  have first := (standing_post world run.lease run.body run.first).2 other differ
  unfold settle
  rcases same : world.post run.lease run.body run.first with ⟨posted, after⟩
  rw [same] at first
  cases posted with
  | recorded => exact first
  | lost => exact first
  | shapeRefused =>
      cases one : run.onePost with
      | false => exact first
      | true =>
          simp only [if_true, fallBack]
          rw [standing_forgetRejected, if_neg differ]
          exact ((standing_post after run.lease run.plain run.second).2 other differ).trans first

end World

/-! ## Runs -/

section Runs

variable {Bytes : Type} (codec : Codec Bytes)

/-- A step loses no replacement copy: in a pass no reshaped copy, in a settle
not the plain one. -/
def Keeps (world : World Bytes) : Event Bytes → Prop
  | .settle run => ¬ (world.standing run.lease.text).SettleLoses run
  | .pass visits =>
      (visits.map Prod.fst).Perm world.json.keys →
        World.DrainKeeps codec (world.listed visits) world

theorem step_accounted_iff (world : World Bytes) (event : Event Bytes)
    (accounted : world.Accounted) :
    (step codec world event).Accounted ↔ Keeps codec world event := by
  cases event with
  | settle run =>
      have safe := (World.accounted_iff world).mp accounted
      simp only [step, Keeps]
      rw [World.accounted_iff, ← Standing.settle_safe_iff _ run (safe _),
        ← World.standing_settle_self]
      constructor
      · exact fun all => all run.lease.text
      · intro own name
        by_cases same : name = run.lease.text
        · exact same ▸ own
        · exact (World.standing_settle_other world run same) ▸ safe name
  | pass visits =>
      simp only [step, World.pass, Keeps]
      split
      · rename_i listing
        rw [World.drain_accounted_iff codec _ world (World.listed_names world visits listing)
          accounted]
        simp [listing]
      · rename_i unlisted
        simp [unlisted, accounted]

theorem start_accounted (json rejected : SortedMap String Bytes) :
    (World.start json rejected).Accounted := by
  intro name held _
  simp only [World.start, List.mem_append, SortedMap.mem_keys_iff] at held
  exact held.imp id Or.inl

/-- Over every run, from every spool a process finds: each report that was ever
in the spool has a copy there or an answer that settles it, in every state
reached, exactly when no step of the run loses a replacement copy. -/
theorem reports_accounted_iff (json rejected : SortedMap String Bytes)
    (events : List (Event Bytes)) :
    (∀ reached ∈ Run.states (step codec) (World.start json rejected) events,
        reached.Accounted) ↔
      Run.Meets (step codec) (Keeps codec) (World.start json rejected) events :=
  Run.invariant_iff_meets (fun world event => step_accounted_iff codec world event)
    (start_accounted json rejected)

end Runs

/-- An older replica refuses a one-post report for its shape, the drain reshapes
it, and the replica refuses the reshaped copy too: the copy is moved to the name
the drain then removes, and nothing is left of the report. -/
theorem reshaped_copy_refused_is_lost :
    ¬ ∀ (codec : Codec String) (json rejected : SortedMap String String)
        (events : List (Event String)),
      ∀ reached ∈ Run.states (step codec) (World.start json rejected) events,
        reached.Accounted := by
  intro always
  let lease := "0199a0b0-0000-7000-8000-000000000001"
  let codec : Codec String :=
    ⟨fun _ => some (.object [("lease_id", .string lease), ("memory", .array [])]),
      fun _ => "plain"⟩
  let shape : World.Exchange := ⟨.error (.refused 400 (some invalidRequest)), .done⟩
  let unread : World.Exchange := ⟨.error (.refused 400 none), .done⟩
  have lost := always codec (SortedMap.empty.insert lease "one-post") SortedMap.empty
    [.pass [(lease, ⟨shape, ⟨.durable, unread, .done⟩⟩)]] _ (Run.final_mem_states _ _ _)
  revert lost
  decide

end Agentsfleet.Spool
