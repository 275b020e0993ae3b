import Agentsfleet.Context.Fit
import Agentsfleet.Core.Bounds
import Agentsfleet.Library.Run

/-!
# A chain of checkpoints

One scope's history grows at its end while plans are made over it, executed and
their checkpoints published under the generation they were planned from.  Plans
may be executed in any order, more than once, or never; the store's answer may
be lost.
-/

set_option autoImplicit false

namespace Agentsfleet.Context

open Agentsfleet.Core
open Agentsfleet.Library

/-! ## Documents -/

def boundedIdentity (limit : Nat) (text : String) : Bool :=
  decide (1 ≤ text.utf8ByteSize) && decide (text.utf8ByteSize ≤ limit) && nulFree text

def Identity.valid (identity : Identity) : Bool :=
  boundedIdentity 256 identity.scope && boundedIdentity 1024 identity.model &&
    boundedIdentity 128 identity.pinned

def isAsciiHexdigit (c : Char) : Bool :=
  c.isDigit || ('a' ≤ c && c ≤ 'f') || ('A' ≤ c && c ≤ 'F')

/-- `Checkpoint::validate_document`. -/
def Checkpoint.validateDocument (encoding : Encoding) (checkpoint : Checkpoint) :
    Except ContextError Unit :=
  let shape :=
    decide (checkpoint.formatVersion = Context.formatVersion) && checkpoint.identity.valid &&
      decide (1 ≤ checkpoint.generation) && decide (checkpoint.generation ≤ 2 ^ 63 - 1) &&
      decide (1 ≤ checkpoint.coveredThrough) &&
      decide (checkpoint.sourceDigest.utf8ByteSize = 64) &&
      checkpoint.sourceDigest.toList.all isAsciiHexdigit
  if !shape then .error .stale
  else
    match checkpoint.summary.validateDocument encoding with
    | .error failure => .error failure
    | .ok () => .ok ()

/-! ## State -/

structure Planned where
  base : Option Checkpoint
  task : Compaction
deriving DecidableEq

/-- One scope's history and its checkpoint row, with the compactions planned. -/
structure Chain where
  groups : List Group
  stored : Option Checkpoint
  planned : List Planned

def Chain.start : Chain := ⟨[], none, []⟩

def storedGeneration (stored : Option Checkpoint) : Nat :=
  (stored.map Checkpoint.generation).getD 0

instance (groups : List Group) : Decidable (Ordered groups) :=
  decidable_of_iff ((∀ group ∈ groups, 0 < group.sequence) ∧
    groups.Pairwise fun earlier later => earlier.sequence < later.sequence)
    ⟨fun both => ⟨both.1, both.2⟩, fun ordered => ⟨ordered.positive, ordered.ascending⟩⟩

section Steps

variable (encoding : Encoding) (scope : String)

/-- `prepare` over the history as it is. -/
def Chain.prepare (s : Chain) (identity : Identity) (window : Window) (estimator : TokenEstimator)
    (stopped : Nat → Bool) : Option (Except ContextError Plan) :=
  Context.prepare encoding (pages s.groups) estimator identity s.stored window stopped
    (s.groups.length + 1)

/-- `Repository::publish`: the row is inserted at generation zero, else updated
where it has the expected generation. -/
def Chain.publish (s : Chain) (expected : Nat) (checkpoint : Checkpoint) :
    Except ContextError Chain :=
  match checkpoint.validateDocument encoding with
  | .error failure => .error failure
  | .ok () =>
      if checkpoint.identity.scope ≠ scope ∨ checkpoint.generation ≠ expected + 1 then
        .error .stale
      else if inI64 checkpoint.generation = false ∨ inI64 expected = false then .error .stale
      else
        let changed :=
          match s.stored with
          | none => decide (expected = 0)
          | some known => decide (expected ≠ 0) && decide (known.generation = expected)
        if changed then .ok { s with stored := some checkpoint }
        else if s.stored = some checkpoint then .ok s
        else .error .stale

/-- `execute` of a planned compaction; `turn.commit` is what is heard of the
store's answer, and `reached` whether the store was. -/
def Chain.execute (s : Chain) (planned : Planned) (turn : Execution) (reached : Bool) :
    Chain × Except ContextError Checkpoint :=
  match Context.execute encoding planned.task { turn with commit := .ok () } with
  | .error failure => (s, .error failure)
  | .ok checkpoint =>
      if reached = false then (s, .error .boundary)
      else
        match s.publish encoding scope planned.task.expectedGeneration checkpoint with
        | .error failure => (s, .error failure)
        | .ok next =>
            match turn.commit with
            | .error failure => (next, .error failure)
            | .ok () => (next, .ok checkpoint)

inductive ChainEvent where
  /-- Groups are appended; the source numbers them upwards. -/
  | grow (more : List Group)
  | prepare (identity : Identity) (window : Window) (estimator : TokenEstimator)
      (stopped : Nat → Bool)
  | execute (n : Nat) (turn : Execution) (reached : Bool)

def Chain.step (s : Chain) : ChainEvent → Chain
  | .grow more => if Ordered (s.groups ++ more) then { s with groups := s.groups ++ more } else s
  | .prepare identity window estimator stopped =>
      match s.prepare encoding identity window estimator stopped with
      | some (.ok (.compact task)) => { s with planned := s.planned ++ [⟨s.stored, task⟩] }
      | _ => s
  | .execute n turn reached =>
      match s.planned[n]? with
      | none => s
      | some planned => (s.execute encoding scope planned turn reached).1

end Steps

/-! ## What the store keeps -/

section Chain

variable {encoding : Encoding} {scope : String}

def Checkpoint.Begins (encoding : Encoding) (checkpoint : Checkpoint) (groups : List Group) :
    Prop :=
  ∃ covered, covered <+: groups ∧ checkpoint.Covers encoding covered

structure Planned.Sound (encoding : Encoding) (planned : Planned) (groups : List Group) :
    Prop where
  generation : planned.task.expectedGeneration = storedGeneration planned.base
  nonempty : planned.task.groups ≠ []
  source : ∃ covered,
    Covered encoding (planned.base.filter (·.belongsTo planned.task.identity)) covered ∧
      covered ++ planned.task.groups <+: groups ∧
        planned.task.priorDigest = digestGroups encoding "" covered

structure Chain.Sound (encoding : Encoding) (s : Chain) : Prop where
  ordered : Ordered s.groups
  stored : ∀ checkpoint, s.stored = some checkpoint →
    0 < checkpoint.generation ∧ checkpoint.Begins encoding s.groups
  planned : ∀ planned ∈ s.planned, planned.Sound encoding s.groups
  base : ∀ planned ∈ s.planned, storedGeneration planned.base ≤ storedGeneration s.stored ∧
    (storedGeneration planned.base = storedGeneration s.stored → s.stored = planned.base)

theorem Chain.sound_start : Chain.start.Sound encoding where
  ordered := ⟨fun _ member => absurd member List.not_mem_nil, List.Pairwise.nil⟩
  stored _ held := absurd held (by simp [Chain.start])
  planned _ member := absurd member List.not_mem_nil
  base _ member := absurd member List.not_mem_nil

theorem Chain.prepare_answers (encoding : Encoding) (s : Chain) (ordered : Ordered s.groups)
    (identity : Identity) (window : Window) (estimator : TokenEstimator) (stopped : Nat → Bool) :
    ∃ answer, s.prepare encoding identity window estimator stopped = some answer ∧
      Answers encoding (requestOf estimator identity s.stored window) s.groups answer :=
  prepare_spec encoding ordered estimator identity s.stored window stopped (Nat.lt_succ_self _)

theorem Chain.prepared_answers {s : Chain} (ordered : Ordered s.groups) {identity : Identity}
    {window : Window} {estimator : TokenEstimator} {stopped : Nat → Bool}
    {answer : Except ContextError Plan}
    (prepared : s.prepare encoding identity window estimator stopped = some answer) :
    Answers encoding (requestOf estimator identity s.stored window) s.groups answer := by
  obtain ⟨other, answered, spec⟩ :=
    s.prepare_answers encoding ordered identity window estimator stopped
  rw [prepared, Option.some.injEq] at answered
  rwa [answered]

theorem Chain.prepared_sound {s : Chain} (sound : s.Sound encoding) {identity : Identity}
    {window : Window} {estimator : TokenEstimator} {stopped : Nat → Bool} {task : Compaction}
    (prepared : s.prepare encoding identity window estimator stopped =
      some (.ok (.compact task))) : (Planned.mk s.stored task).Sound encoding s.groups := by
  obtain ⟨same, generation, prior, _, nonempty, covered, spared, covers, split, _⟩ :=
    Chain.prepared_answers sound.ordered prepared
  have chained : task.priorDigest = digestGroups encoding "" covered := by
    rw [prior]
    cases known : (requestOf estimator identity s.stored window).checkpoint with
    | none =>
        rw [known] at covers
        rw [show covered = [] from covers]
        rfl
    | some checkpoint =>
        rw [known] at covers
        exact covers.digest.symm
  refine ⟨generation, nonempty, covered, ?_, ⟨spared, ?_⟩, chained⟩
  · rw [same]
    exact covers
  · rw [split, List.append_assoc]

structure Chain.Publishes (encoding : Encoding) (s : Chain) (planned : Planned)
    (checkpoint : Checkpoint) : Prop where
  generation : checkpoint.generation = storedGeneration planned.base + 1
  later : ∀ known, planned.base.filter (·.belongsTo planned.task.identity) = some known →
    known.coveredThrough < checkpoint.coveredThrough
  identity : checkpoint.belongsTo planned.task.identity = true
  begins : checkpoint.Begins encoding s.groups

theorem Chain.executed_publishes {s : Chain} (sound : s.Sound encoding) {planned : Planned}
    (member : planned ∈ s.planned) {turn : Execution} {checkpoint : Checkpoint}
    (executed : Context.execute encoding planned.task turn = .ok checkpoint) :
    s.Publishes encoding planned checkpoint := by
  have records := execute_records encoding planned.task turn checkpoint executed
  obtain ⟨generation, nonempty, covered, covers, begins, chained⟩ := sound.planned planned member
  have fresh := records.covers covered chained
  refine ⟨by rw [records.generation, generation], ?_, records.belongsTo, _, begins, fresh⟩
  intro known held
  rw [held] at covers
  obtain ⟨front, last, ends⟩ := List.eq_nil_or_concat planned.task.groups |>.resolve_left nonempty
  obtain ⟨rest, split⟩ := begins
  -- The known watermark is the last covered sequence, below every group after it.
  have ordered : Ordered (covered ++ planned.task.groups) := by
    have whole := sound.ordered
    rw [← split] at whole
    exact whole.front
  have reached : checkpoint.coveredThrough = last.sequence := by
    simp [records.coveredThrough, Compaction.coveredThrough, ends]
  have known_last := covers.watermark
  rw [Option.map_eq_some_iff] at known_last
  obtain ⟨covered_last, at_last, same⟩ := known_last
  rw [reached, ← same]
  have ascending := ordered.ascending
  rw [List.pairwise_append] at ascending
  refine ascending.2.2 covered_last (List.mem_of_getLast? at_last) last ?_
  rw [ends, List.concat_eq_append]
  exact List.mem_append_right _ (List.mem_singleton_self _)

theorem Chain.publish_ok {s next : Chain} {expected : Nat} {checkpoint : Checkpoint}
    (published : s.publish encoding scope expected checkpoint = .ok next) :
    (storedGeneration s.stored = expected ∧ checkpoint.generation = expected + 1 ∧
        next = { s with stored := some checkpoint }) ∨
      (s.stored = some checkpoint ∧ next = s) := by
  unfold Chain.publish at published
  cases valid : checkpoint.validateDocument encoding with
  | error failure => simp [valid] at published
  | ok =>
      simp only [valid] at published
      split at published
      · contradiction
      · rename_i matching
        rw [not_or, not_not, not_not] at matching
        split at published
        · contradiction
        · cases held : s.stored with
          | none =>
              simp only [held] at published
              split at published
              · rename_i changed
                rw [Except.ok.injEq] at published
                exact .inl ⟨(of_decide_eq_true changed).symm, matching.2, published.symm⟩
              · rw [if_neg nofun] at published
                contradiction
          | some known =>
              simp only [held] at published
              split at published
              · rename_i changed
                rw [Except.ok.injEq] at published
                simp only [Bool.and_eq_true, decide_eq_true_eq] at changed
                exact .inl ⟨changed.2, matching.2, published.symm⟩
              · split at published
                · rename_i same
                  rw [Except.ok.injEq] at published
                  exact .inr ⟨same, published.symm⟩
                · contradiction

theorem Chain.execute_cases (encoding : Encoding) (scope : String) (s : Chain)
    (planned : Planned) (turn : Execution) (reached : Bool) :
    (s.execute encoding scope planned turn reached).1 = s ∨ ∃ checkpoint,
      Context.execute encoding planned.task { turn with commit := .ok () } = .ok checkpoint ∧
        storedGeneration s.stored = planned.task.expectedGeneration ∧
        (s.execute encoding scope planned turn reached).1 =
          { s with stored := some checkpoint } := by
  unfold Chain.execute
  cases executed : Context.execute encoding planned.task { turn with commit := .ok () } with
  | error failure => exact .inl rfl
  | ok checkpoint =>
      simp only
      split
      · exact .inl rfl
      · cases published : s.publish encoding scope planned.task.expectedGeneration checkpoint with
        | error failure => exact .inl rfl
        | ok next =>
            have stored : (match turn.commit with
                | .error failure => (next, Except.error failure)
                | .ok () => (next, Except.ok checkpoint)).1 = next := by
              cases turn.commit with
              | error failure => rfl
              | ok => rfl
            simp only
            rw [stored]
            rcases Chain.publish_ok published with ⟨same, _, rfl⟩ | ⟨_, rfl⟩
            · exact .inr ⟨checkpoint, rfl, same, rfl⟩
            · exact .inl rfl

theorem Checkpoint.Begins.append {checkpoint : Checkpoint} {groups : List Group}
    (begins : checkpoint.Begins encoding groups) (more : List Group) :
    checkpoint.Begins encoding (groups ++ more) := by
  obtain ⟨covered, front, covers⟩ := begins
  exact ⟨covered, front.trans (List.prefix_append _ _), covers⟩

theorem Chain.sound_step {s : Chain} (event : ChainEvent) (sound : s.Sound encoding) :
    (s.step encoding scope event).Sound encoding := by
  cases event with
  | grow more =>
      simp only [Chain.step]
      by_cases ordered : Ordered (s.groups ++ more)
      · rw [if_pos ordered]
        refine ⟨ordered, ?_, ?_, sound.base⟩
        · intro checkpoint held
          obtain ⟨positive, begins⟩ := sound.stored checkpoint held
          exact ⟨positive, begins.append more⟩
        · intro planned member
          obtain ⟨generation, nonempty, covered, covers, begins, chained⟩ :=
            sound.planned planned member
          exact ⟨generation, nonempty, covered, covers, begins.trans (List.prefix_append _ _),
            chained⟩
      · rw [if_neg ordered]
        exact sound
  | prepare identity window estimator stopped =>
      simp only [Chain.step]
      split
      · rename_i task prepared
        refine ⟨sound.ordered, sound.stored, ?_, ?_⟩
        · intro planned member
          rcases List.mem_append.mp member with old | new
          · exact sound.planned planned old
          · rw [List.mem_singleton.mp new]
            exact Chain.prepared_sound sound prepared
        · intro planned member
          rcases List.mem_append.mp member with old | new
          · exact sound.base planned old
          · rw [List.mem_singleton.mp new]
            exact ⟨Nat.le_refl _, fun _ => rfl⟩
      · exact sound
  | execute n turn reached =>
      simp only [Chain.step]
      cases held : s.planned[n]? with
      | none => exact sound
      | some planned =>
          have member := List.mem_of_getElem? held
          simp only
          rcases s.execute_cases encoding scope planned turn reached with
            same | ⟨checkpoint, executed, same, written⟩
          · rw [same]
            exact sound
          · have publishes := Chain.executed_publishes sound member executed
            rw [written]
            have raised : storedGeneration s.stored < checkpoint.generation := by
              rw [publishes.generation, ← (sound.planned planned member).generation, ← same]
              exact Nat.lt_succ_self _
            refine ⟨sound.ordered, ?_, sound.planned, ?_⟩
            · intro other latest
              rw [Option.some.injEq] at latest
              subst latest
              exact ⟨Nat.lt_of_le_of_lt (Nat.zero_le _) raised, publishes.begins⟩
            · intro other inside
              have below := (sound.base other inside).1
              have above : storedGeneration other.base < checkpoint.generation :=
                Nat.lt_of_le_of_lt below raised
              exact ⟨Nat.le_of_lt above, fun equal => absurd equal (Nat.ne_of_lt above)⟩

/-! ## No group lost or sent twice -/

def groupsAfter (covered : Nat) (groups : List Group) : List Group :=
  groups.filter fun group => decide (covered < group.sequence)

theorem groupsAfter_append {covered rest : List Group} {checkpoint : Checkpoint}
    (ordered : Ordered (covered ++ rest)) (covers : checkpoint.Covers encoding covered) :
    groupsAfter checkpoint.coveredThrough (covered ++ rest) = rest := by
  have ends := covers_lastSequence covers
  have none_covered : groupsAfter checkpoint.coveredThrough covered = [] := by
    apply List.filter_eq_nil_iff.mpr
    intro group member
    have below := ordered.front.le_lastSequence group member
    rw [decide_eq_true_eq]
    omega
  have all_after : groupsAfter checkpoint.coveredThrough rest = rest := by
    apply List.filter_eq_self.mpr
    intro group member
    obtain ⟨last, at_last, same⟩ := Option.map_eq_some_iff.mp covers.watermark
    have ascending := ordered.ascending
    rw [List.pairwise_append] at ascending
    have above := ascending.2.2 last (List.mem_of_getLast? at_last) group member
    rw [decide_eq_true_eq, ← same]
    exact above
  unfold groupsAfter at none_covered all_after ⊢
  rw [List.filter_append, none_covered, all_after, List.nil_append]

/-- What a ready plan sends: the checkpoint's summary, which covers exactly the
groups before, and every group after it. -/
structure Chain.Sends (encoding : Encoding) (s : Chain) (identity : Identity)
    (summary : Option Summary) (groups : List Group) : Prop where
  fresh : s.stored.filter (·.belongsTo identity) = none → summary = none ∧ groups = s.groups
  continued : ∀ checkpoint, s.stored.filter (·.belongsTo identity) = some checkpoint →
    summary = some checkpoint.summary ∧
      groups = groupsAfter checkpoint.coveredThrough s.groups ∧
        ∃ covered, s.groups = covered ++ groups ∧ checkpoint.Covers encoding covered

theorem Chain.ready_sends {s : Chain} (ordered : Ordered s.groups) {identity : Identity}
    {window : Window} {estimator : TokenEstimator} {stopped : Nat → Bool}
    {summary : Option Summary} {groups : List Group} {output : Nat}
    (prepared : s.prepare encoding identity window estimator stopped =
      some (.ok (.ready summary groups output))) : s.Sends encoding identity summary groups := by
  obtain ⟨noted, covered, covers, split⟩ := Chain.prepared_answers ordered prepared
  simp only [requestOf] at noted covers
  refine ⟨?_, ?_⟩
  · intro none_known
    rw [none_known] at noted covers
    rw [split, show covered = [] from covers]
    exact ⟨noted, rfl⟩
  · intro checkpoint known
    rw [known] at noted covers
    refine ⟨noted, ?_, covered, split, covers⟩
    have after := groupsAfter_append (split ▸ ordered) covers
    rw [← split] at after
    exact after.symm

/-- Over any extension of the history the stored checkpoint still verifies. -/
theorem Chain.never_stale {s : Chain} (sound : s.Sound encoding) (more : List Group)
    (ordered : Ordered (s.groups ++ more)) (identity : Identity) (window : Window)
    (estimator : TokenEstimator) (stopped : Nat → Bool) :
    Chain.prepare encoding { s with groups := s.groups ++ more } identity window estimator stopped ≠
      some (.error .stale) := by
  intro stale
  have changed := Chain.prepared_answers ordered stale rfl
  simp only [requestOf] at changed
  cases known : s.stored.filter (·.belongsTo identity) with
  | none =>
      rw [known] at changed
      exact changed [] rfl List.nil_prefix
  | some checkpoint =>
      rw [known] at changed
      have held := (Option.filter_eq_some_iff.mp known).1
      obtain ⟨covered, front, covers⟩ := ((sound.stored checkpoint held).2).append more
      exact changed covered covers front

/-- What holds of a chain at `s`, and of whatever is prepared or executed next. -/
structure Chain.Kept (encoding : Encoding) (scope : String) (s : Chain) : Prop where
  answers : ∀ identity window estimator stopped,
    (s.prepare encoding identity window estimator stopped).isSome = true
  ready : ∀ identity window estimator stopped summary groups output,
    s.prepare encoding identity window estimator stopped =
      some (.ok (.ready summary groups output)) → s.Sends encoding identity summary groups
  executed : ∀ (n : Nat) planned turn reached checkpoint next, s.planned[n]? = some planned →
    s.execute encoding scope planned turn reached = (next, .ok checkpoint) →
      next.stored = some checkpoint ∧ s.Publishes encoding planned checkpoint ∧
        (s.stored = planned.base ∨ s.stored = some checkpoint)
  verifies : ∀ more, Ordered (s.groups ++ more) → ∀ identity window estimator stopped,
    Chain.prepare encoding { s with groups := s.groups ++ more } identity window estimator
      stopped ≠ some (.error .stale)

theorem Chain.execute_ok {s next : Chain} (sound : s.Sound encoding) {planned : Planned}
    (member : planned ∈ s.planned) {turn : Execution} {reached : Bool} {checkpoint : Checkpoint}
    (executed : s.execute encoding scope planned turn reached = (next, .ok checkpoint)) :
    next.stored = some checkpoint ∧ s.Publishes encoding planned checkpoint ∧
      (s.stored = planned.base ∨ s.stored = some checkpoint) := by
  unfold Chain.execute at executed
  cases made : Context.execute encoding planned.task { turn with commit := .ok () } with
  | error failure => simp [made] at executed
  | ok fresh =>
      simp only [made] at executed
      split at executed
      · simp at executed
      · cases published : s.publish encoding scope planned.task.expectedGeneration fresh with
        | error failure => simp [published] at executed
        | ok after =>
            simp only [published] at executed
            cases heard : turn.commit with
            | error failure => simp [heard] at executed
            | ok =>
                simp only [heard, Prod.mk.injEq, Except.ok.injEq] at executed
                obtain ⟨rfl, rfl⟩ := executed
                have publishes := Chain.executed_publishes sound member made
                rcases Chain.publish_ok published with ⟨same, _, rfl⟩ | ⟨held, rfl⟩
                · refine ⟨rfl, publishes, .inl ?_⟩
                  refine (sound.base planned member).2 ?_
                  rw [same, (sound.planned planned member).generation]
                · exact ⟨held, publishes, .inr held⟩

theorem Chain.Sound.kept {s : Chain} (sound : s.Sound encoding) : s.Kept encoding scope where
  answers identity window estimator stopped := by
    obtain ⟨answer, answered, _⟩ :=
      s.prepare_answers encoding sound.ordered identity window estimator stopped
    rw [answered]
    rfl
  ready _ _ _ _ _ _ _ prepared := Chain.ready_sends sound.ordered prepared
  executed _ _ _ _ _ _ held executed :=
    Chain.execute_ok sound (List.mem_of_getElem? held) executed
  verifies more ordered := Chain.never_stale sound more ordered

end Chain

/-- In every run of appends, plans and executions. -/
theorem chain_kept (encoding : Encoding) (scope : String) (events : List ChainEvent) :
    ∀ reached ∈ Run.states (Chain.step encoding scope) Chain.start events,
      reached.Kept encoding scope := by
  intro reached member
  have sound := Run.invariant_of_step (Chain.Sound encoding)
    (fun s event held => Chain.sound_step event held) Chain.sound_start events reached member
  exact sound.kept

def firstEncoding : Encoding where
  sha256 _ := "a428f4156d91715b8048057e99d819ed9efa78254bd9ce15c7adcb1b26dd99e4"
  summary summary := .ok summary.goal

def firstGroup : Group := ⟨1, "text"⟩

/-- A group too large to send, its compaction and the next plan's base. -/
def firstRun : List ChainEvent :=
  [.grow [firstGroup], .prepare smallIdentity smallWindow smallEstimator (fun _ => false),
    .execute 0 ⟨false, .ok ⟨"goal", [], [], [], [], []⟩, false, .ok ()⟩ true, .grow [⟨2, "more"⟩]]

theorem chain_kept_first :
    ((Run.final (Chain.step firstEncoding "scope") Chain.start firstRun).stored.map
        fun checkpoint => (checkpoint.generation, checkpoint.coveredThrough)) = some (1, 1) ∧
      (Run.final (Chain.step firstEncoding "scope") Chain.start firstRun).Kept firstEncoding
        "scope" := by
  refine ⟨by decide +kernel, ?_⟩
  exact chain_kept firstEncoding "scope" firstRun _
    (Run.final_mem_states (Chain.step firstEncoding "scope") Chain.start firstRun)

end Agentsfleet.Context
