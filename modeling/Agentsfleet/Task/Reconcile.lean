import Agentsfleet.Task.Effects

/-!
# Publication receipts in the conversation

A run reads its task's effects back from the daemon before it acts further: page
by page after the last ordinal it has, an unresolved effect once more on its own.
The daemon may move between any two requests, and any request may fail.
-/

set_option autoImplicit false

namespace Agentsfleet.Task.Reconcile

open Agentsfleet.Library
open Agentsfleet.Task.Effects (TaskEffectState)

/-! ## The daemon's history -/

structure TaskEffect where
  effectId : String
  ordinal : Nat
  state : TaskEffectState
  expectedHead : String
  testedTree : String
  commit : Option String
  pullRequestUrl : String
deriving DecidableEq

namespace TaskEffect

def settles (effect : TaskEffect) : Bool :=
  match effect.state with
  | .confirmed => effect.commit.isSome
  | .refused => effect.commit.isNone
  | _ => false

def confirmed (effect : TaskEffect) : Bool := decide (effect.state = .confirmed)

def sameAs (recovered previous : TaskEffect) : Bool :=
  decide (recovered.effectId = previous.effectId ∧ recovered.ordinal = previous.ordinal ∧
    recovered.expectedHead = previous.expectedHead ∧ recovered.testedTree = previous.testedTree)

end TaskEffect

structure Daemon where
  taskId : String
  effects : List TaskEffect
  confirmedEffectWatermark : Nat
  inputSequence : Nat
  coveredInputSequence : Nat
  executionDeadline : Option Int
  selected : Option String

inductive Move where
  | issued
  | refused
  | lost
  | confirmed (commit : String)

inductive DaemonEvent where
  /-- A publication is reserved. -/
  | opened (effectId expectedHead testedTree pullRequestUrl : String)
  | moved (ordinal : Nat) (move : Move)
  | inputs (inputSequence coveredInputSequence : Nat) (executionDeadline : Option Int)
  | selects (task : Option String)

namespace Daemon

def start (taskId : String) : Daemon := ⟨taskId, [], 0, 0, 0, none, none⟩

/-- The effect after `move`, where its state takes it. -/
def moveEffect (move : Move) (effect : TaskEffect) : TaskEffect :=
  match move, effect.state with
  | .issued, .prepared => { effect with state := .issued }
  | .refused, .prepared => { effect with state := .refused }
  | .lost, .issued => { effect with state := .unknown }
  | .confirmed commit, .issued => { effect with state := .confirmed, commit := some commit }
  | .confirmed commit, .unknown => { effect with state := .confirmed, commit := some commit }
  | _, _ => effect

/-- The mark of a confirmation: `GREATEST(confirmed_effect_watermark, ordinal)`. -/
def mark (watermark : Nat) (before after : TaskEffect) : Nat :=
  if before ≠ after ∧ after.confirmed then max watermark after.ordinal else watermark

def apply (d : Daemon) : DaemonEvent → Daemon
  | .opened effectId expectedHead testedTree pullRequestUrl =>
      -- A task has one unresolved effect at most.
      if d.effects.any fun effect => effect.state.unresolved then d
      else
        { d with
          effects := d.effects ++ [⟨effectId, d.effects.length + 1, .prepared, expectedHead,
            testedTree, none, pullRequestUrl⟩] }
  | .moved ordinal move =>
      match d.effects[ordinal - 1]? with
      | some effect =>
          let after := moveEffect move effect
          { d with
            effects := d.effects.set (ordinal - 1) after
            confirmedEffectWatermark := mark d.confirmedEffectWatermark effect after }
      | none => d
  | .inputs inputSequence coveredInputSequence executionDeadline =>
      { d with
        inputSequence := inputSequence
        coveredInputSequence := coveredInputSequence
        executionDeadline := executionDeadline }
  | .selects task => { d with selected := task }

def effectCursor (d : Daemon) : Nat := d.effects.length

structure TaskEffectsPage where
  effects : List TaskEffect
  nextCursor : Option Nat

/-- `list`: the effects after `ordinalAfter`, `limit` of them at most. -/
def list (d : Daemon) (ordinalAfter limit : Nat) : TaskEffectsPage :=
  let found := d.effects.filter fun effect => decide (ordinalAfter < effect.ordinal)
  let page := found.take limit
  { effects := page
    nextCursor := if limit < found.length then page.getLast?.map TaskEffect.ordinal else none }

/-- `one`: an effect by its identity. -/
def one (d : Daemon) (effectId : String) : Option TaskEffect :=
  d.effects.find? fun effect => decide (effect.effectId = effectId)

structure CurrentTask where
  taskId : String
  confirmedEffectWatermark : Nat
  effectCursor : Nat
  coveredInputSequence : Nat
  inputSequence : Nat

def currentTask (d : Daemon) : Option CurrentTask :=
  d.selected.map fun id => ⟨id, d.confirmedEffectWatermark, d.effectCursor,
    d.coveredInputSequence, d.inputSequence⟩

end Daemon

/-! ## The run's side -/

inductive Message where
  /-- The user message that holds a scrubbed `native_publication_receipt`. -/
  | receipt (effect : TaskEffect)
  | other (text : String)

/-- What the lease prepared for its task: whether its turn may act, and the task its inputs name. -/
structure Prepared where
  allowActions : Bool
  currentTask : Option String
  executionDeadline : Option Int

structure Harness where
  prepared : Option Prepared
  messages : List Message
  incorporatedInputSequence : Nat
  reconciledEffectOrdinal : Nat
  confirmedEffectWatermark : Nat

structure Ask where
  events : List DaemonEvent
  stopped : Bool
  answered : Bool

/-- A call in progress: the run's side, the daemon, and the requests left to make. -/
structure Flow where
  harness : Harness
  daemon : Daemon
  asks : List Ask

namespace Flow

/-- `stop.is_cancelled()`, as a page is about to be asked for. -/
def stopped (f : Flow) : Bool := f.asks.head?.any Ask.stopped

def request (f : Flow) : Flow × Bool :=
  match f.asks with
  | [] => (f, false)
  | ask :: rest =>
      ({ f with daemon := Run.final Daemon.apply f.daemon ask.events, asks := rest }, ask.answered)

/-- The effect whose receipt is appended: a resolved one as listed, another read once more. -/
def readEffect (f : Flow) (previous : TaskEffect) : Flow × Option TaskEffect :=
  if previous.state.unresolved then
    let (f, answered) := f.request
    if answered then (f, (f.daemon.one previous.effectId).filter (·.sameAs previous)) else (f, none)
  else (f, some previous)

def append (f : Flow) (effect : TaskEffect) : Flow :=
  { f with
    harness :=
      { f.harness with
        confirmedEffectWatermark :=
          if effect.confirmed then effect.ordinal else f.harness.confirmedEffectWatermark
        messages := f.harness.messages ++ [.receipt effect]
        reconciledEffectOrdinal := effect.ordinal } }

/-- The largest `u64`. -/
def ordinalMax : Nat := 2 ^ 64 - 1

def takeEffect (f : Flow) (previous : TaskEffect) : Flow × Bool :=
  if ordinalMax ≤ f.harness.reconciledEffectOrdinal ∨
      previous.ordinal ≠ f.harness.reconciledEffectOrdinal + 1 then (f, false)
  else
    match f.readEffect previous with
    | (f, some effect) => if effect.settles then (f.append effect, true) else (f, false)
    | (f, none) => (f, false)

def takeEffects : Flow → List TaskEffect → Flow × Bool
  | f, [] => (f, true)
  | f, previous :: rest =>
      match f.takeEffect previous with
      | (f, true) => takeEffects f rest
      | (f, false) => (f, false)

def pageLimit : Nat := 50

/-- The bounded page walk; a page past the last fails. -/
def takePages (taskId : String) : Nat → Flow → Flow × Bool
  | 0, f => (f, false)
  | left + 1, f =>
      if f.stopped then (f, false)
      else
        match f.request with
        | (f, false) => (f, false)
        | (f, true) =>
            -- The daemon lists only the effects of the task its lease has selected.
            if f.daemon.selected ≠ some taskId ∨ f.daemon.taskId ≠ taskId then (f, false)
            else
              let page := f.daemon.list f.harness.reconciledEffectOrdinal pageLimit
              match f.takeEffects page.effects with
              | (f, false) => (f, false)
              | (f, true) => if page.nextCursor.isNone then (f, true) else takePages taskId left f

def pagesMax : Nat := 64

def readInputs (f : Flow) (prepared : Prepared) (taskId : String) : Flow × Bool :=
  match f.request with
  | (f, false) => (f, false)
  | (f, true) =>
      match f.daemon.currentTask with
      | none => (f, false)
      | some current =>
          if current.taskId ≠ taskId ∨
              current.confirmedEffectWatermark ≠ f.harness.confirmedEffectWatermark ∨
              current.effectCursor ≠ f.harness.reconciledEffectOrdinal ∨
              current.coveredInputSequence ≠ f.harness.incorporatedInputSequence ∨
              current.inputSequence ≠ f.harness.incorporatedInputSequence then (f, false)
          else
            ({ f with
              harness :=
                { f.harness with
                  prepared := some
                    { prepared with
                      currentTask := some current.taskId
                      executionDeadline := f.daemon.executionDeadline } } }, true)

/-- `reconcile_task_effects`. -/
def reconcile (f : Flow) : Flow × Bool :=
  match f.harness.prepared.filter Prepared.allowActions with
  | none => (f, true)
  | some prepared =>
      match prepared.currentTask with
      | none => (f, false)
      | some taskId =>
          match f.takePages taskId pagesMax with
          | (f, false) => (f, false)
          | (f, true) => f.readInputs prepared taskId

end Flow

/-! ## What the daemon keeps -/

/-- `watermark` is the largest confirmed ordinal of `effects`, from `least` on. -/
structure Largest (least watermark : Nat) (effects : List TaskEffect) : Prop where
  from_least : least ≤ watermark
  held : watermark = least ∨ ∃ effect ∈ effects, effect.confirmed = true ∧
    effect.ordinal = watermark
  above : ∀ effect ∈ effects, effect.confirmed = true → effect.ordinal ≤ watermark

theorem Largest.append {least watermark : Nat} {effects : List TaskEffect}
    (largest : Largest least watermark effects) {effect : TaskEffect}
    (later : ∀ other ∈ effects, other.ordinal < effect.ordinal) (after : least < effect.ordinal) :
    Largest least (if effect.confirmed then effect.ordinal else watermark)
      (effects ++ [effect]) := by
  obtain ⟨from_least, held, above⟩ := largest
  cases confirmed : effect.confirmed with
  | true =>
      refine ⟨after.le, .inr ⟨effect, List.mem_append_right _ List.mem_cons_self, confirmed, rfl⟩,
        ?_⟩
      intro other member _
      rcases List.mem_append.mp member with before | last
      · exact (later other before).le
      · rw [List.mem_singleton.mp last, if_pos rfl]
  | false =>
      rw [if_neg Bool.false_ne_true]
      refine ⟨from_least, ?_, ?_⟩
      · exact held.imp id fun ⟨other, member, facts⟩ =>
          ⟨other, List.mem_append_left _ member, facts⟩
      · intro other member isConfirmed
        rcases List.mem_append.mp member with before | last
        · exact above other before isConfirmed
        · rw [List.mem_singleton.mp last, confirmed] at isConfirmed
          nomatch isConfirmed

theorem settles_resolved {effect : TaskEffect} (settles : effect.settles = true) :
    effect.state.unresolved = false := by
  rw [TaskEffect.settles] at settles
  cases state : effect.state with
  | confirmed => rfl
  | refused => rfl
  | prepared => rw [state] at settles; nomatch settles
  | issued => rw [state] at settles; nomatch settles
  | unknown => rw [state] at settles; nomatch settles

namespace Daemon

structure Valid (d : Daemon) : Prop where
  ordinals : ∀ (at_ : Nat) (effect : TaskEffect), d.effects[at_]? = some effect →
    effect.ordinal = at_ + 1
  /-- Every effect but the last is resolved. -/
  single : ∀ effect ∈ d.effects, effect.state.unresolved = true →
    effect.ordinal = d.effects.length
  commits : ∀ effect ∈ d.effects, effect.state.unresolved = true ∧ effect.commit = none ∨
    effect.settles = true
  watermark : Largest 0 d.confirmedEffectWatermark d.effects

structure Grows (before after : Daemon) : Prop where
  task : after.taskId = before.taskId
  effects : ∀ (at_ : Nat) (effect : TaskEffect), before.effects[at_]? = some effect →
    ∃ next, after.effects[at_]? = some next ∧ next.ordinal = effect.ordinal ∧
      (effect.state.unresolved = false → next = effect)

theorem Grows.refl (d : Daemon) : d.Grows d :=
  ⟨rfl, fun _ effect found => ⟨effect, found, rfl, fun _ => rfl⟩⟩

theorem Grows.trans {first second third : Daemon} (one : first.Grows second)
    (two : second.Grows third) : first.Grows third := by
  refine ⟨two.task.trans one.task, fun at_ effect found => ?_⟩
  obtain ⟨next, there, ordinal, same⟩ := one.effects at_ effect found
  obtain ⟨last, here, again, still⟩ := two.effects at_ next there
  refine ⟨last, here, again.trans ordinal, fun resolved => ?_⟩
  have equal := same resolved
  rw [← equal]
  exact still (equal ▸ resolved)

theorem Grows.keeps {before after : Daemon} (grows : before.Grows after) {effect : TaskEffect}
    (member : effect ∈ before.effects) (resolved : effect.state.unresolved = false) :
    effect ∈ after.effects := by
  obtain ⟨at_, inside, here⟩ := List.getElem_of_mem member
  obtain ⟨next, there, _, same⟩ :=
    grows.effects at_ effect (List.getElem?_eq_some_iff.mpr ⟨inside, here⟩)
  exact same resolved ▸ List.mem_of_getElem? there

theorem moveEffect_cases (move : Move) (effect : TaskEffect) :
    moveEffect move effect = effect ∨
      effect.state.unresolved = true ∧ (moveEffect move effect).ordinal = effect.ordinal ∧
        ((moveEffect move effect).state.unresolved = true ∧
            (moveEffect move effect).commit = effect.commit ∨
          (moveEffect move effect).state = .refused ∧
            (moveEffect move effect).commit = effect.commit ∨
          (moveEffect move effect).state = .confirmed ∧
            (moveEffect move effect).commit.isSome = true) := by
  obtain ⟨effectId, ordinal, state, expectedHead, testedTree, commit, url⟩ := effect
  cases move with
  | issued =>
      cases state with
      | prepared => exact .inr ⟨rfl, rfl, .inl ⟨rfl, rfl⟩⟩
      | _ => exact .inl rfl
  | refused =>
      cases state with
      | prepared => exact .inr ⟨rfl, rfl, .inr (.inl ⟨rfl, rfl⟩)⟩
      | _ => exact .inl rfl
  | lost =>
      cases state with
      | issued => exact .inr ⟨rfl, rfl, .inl ⟨rfl, rfl⟩⟩
      | _ => exact .inl rfl
  | confirmed oid =>
      cases state with
      | issued => exact .inr ⟨rfl, rfl, .inr (.inr ⟨rfl, rfl⟩)⟩
      | unknown => exact .inr ⟨rfl, rfl, .inr (.inr ⟨rfl, rfl⟩)⟩
      | _ => exact .inl rfl

theorem Valid.ordinal_le {d : Daemon} (valid : d.Valid) {effect : TaskEffect}
    (member : effect ∈ d.effects) : 0 < effect.ordinal ∧ effect.ordinal ≤ d.effects.length := by
  obtain ⟨at_, inside, here⟩ := List.getElem_of_mem member
  have ordinal := valid.ordinals at_ effect (List.getElem?_eq_some_iff.mpr ⟨inside, here⟩)
  omega

theorem apply_grows (d : Daemon) (event : DaemonEvent) : d.Grows (d.apply event) := by
  cases event with
  | opened effectId head tree url =>
      rw [apply]
      split
      · exact Grows.refl d
      · refine ⟨rfl, fun at_ effect found => ⟨effect, ?_, rfl, fun _ => rfl⟩⟩
        obtain ⟨inside, _⟩ := List.getElem?_eq_some_iff.mp found
        exact (List.getElem?_append_left inside).trans found
  | moved ordinal move =>
      rw [apply]
      split
      · rename_i moving there
        refine ⟨rfl, fun at_ effect found => ?_⟩
        obtain ⟨inside, _⟩ := List.getElem?_eq_some_iff.mp found
        by_cases same : ordinal - 1 = at_
        · subst same
          obtain rfl : effect = moving := Option.some.inj (found.symm.trans there)
          refine ⟨moveEffect move effect, List.getElem?_set_self inside, ?_⟩
          rcases moveEffect_cases move effect with stays | ⟨unresolved, kept, _⟩
          · rw [stays]
            exact ⟨rfl, fun _ => rfl⟩
          · refine ⟨kept, fun resolved => ?_⟩
            rw [unresolved] at resolved
            nomatch resolved
        · exact ⟨effect, (List.getElem?_set_ne same).trans found, rfl, fun _ => rfl⟩
      · exact Grows.refl d
  | inputs input covered deadline => exact ⟨rfl, (Grows.refl d).effects⟩
  | selects task => exact ⟨rfl, (Grows.refl d).effects⟩

theorem opened_valid {d : Daemon} (valid : d.Valid)
    (none_open : (d.effects.any fun effect => effect.state.unresolved) = false)
    {effect : TaskEffect} (ordinal : effect.ordinal = d.effects.length + 1)
    (prepared : effect.state = .prepared) (commit : effect.commit = none) :
    Valid { d with effects := d.effects ++ [effect] } := by
  have open_ : effect.state.unresolved = true := by rw [prepared]; rfl
  have resolved : ∀ other ∈ d.effects, other.state.unresolved = false := fun other member =>
    Bool.eq_false_iff.mpr (List.any_eq_false.mp none_open other member)
  refine ⟨?_, ?_, ?_, ?_⟩
  · intro at_ other found
    by_cases inside : at_ < d.effects.length
    · exact valid.ordinals at_ other ((List.getElem?_append_left inside).symm.trans found)
    · rw [List.getElem?_append_right (by omega), List.getElem?_singleton] at found
      split at found
      · obtain rfl : effect = other := Option.some.inj found
        omega
      · nomatch found
  · intro other member unresolved
    rcases List.mem_append.mp member with before | last
    · rw [resolved other before] at unresolved
      nomatch unresolved
    · rw [List.mem_singleton.mp last, ordinal, List.length_append]
      rfl
  · intro other member
    rcases List.mem_append.mp member with before | last
    · exact valid.commits other before
    · rw [List.mem_singleton.mp last]
      exact .inl ⟨open_, commit⟩
  · have later : ∀ other ∈ d.effects, other.ordinal < effect.ordinal := fun other member => by
      have := valid.ordinal_le member
      omega
    have largest := valid.watermark.append later (by omega)
    rwa [if_neg (by rw [TaskEffect.confirmed, prepared]; exact Bool.false_ne_true)] at largest

theorem moved_valid {d : Daemon} (valid : d.Valid) {at_ : Nat} {effect after : TaskEffect}
    (there : d.effects[at_]? = some effect) (unresolved : effect.state.unresolved = true)
    (ordinal : after.ordinal = effect.ordinal)
    (outcome : after.state.unresolved = true ∧ after.commit = effect.commit ∨
      after.state = .refused ∧ after.commit = effect.commit ∨
        after.state = .confirmed ∧ after.commit.isSome = true)
    (grows : d.Grows { d with
      effects := d.effects.set at_ after
      confirmedEffectWatermark := mark d.confirmedEffectWatermark effect after }) :
    Valid { d with
      effects := d.effects.set at_ after
      confirmedEffectWatermark := mark d.confirmedEffectWatermark effect after } := by
  obtain ⟨inside, _⟩ := List.getElem?_eq_some_iff.mp there
  have member := List.mem_of_getElem? there
  have last := valid.single effect member unresolved
  have uncommitted : effect.commit = none := by
    rcases valid.commits effect member with ⟨_, none_⟩ | settles
    · exact none_
    · rw [settles_resolved settles] at unresolved
      nomatch unresolved
  refine ⟨?_, ?_, ?_, ?_⟩
  · intro other_at other found
    by_cases same : at_ = other_at
    · subst same
      rw [List.getElem?_set_self inside] at found
      rw [← Option.some.inj found, ordinal]
      exact valid.ordinals at_ effect there
    · exact valid.ordinals other_at other ((List.getElem?_set_ne same).symm.trans found)
  · intro other found open_
    rw [List.length_set]
    rcases List.mem_or_eq_of_mem_set found with before | rfl
    · exact valid.single other before open_
    · exact ordinal.trans last
  · intro other found
    rcases List.mem_or_eq_of_mem_set found with before | rfl
    · exact valid.commits other before
    · rcases outcome with ⟨open_, kept⟩ | ⟨refused, kept⟩ | ⟨confirmed, committed⟩
      · exact .inl ⟨open_, kept.trans uncommitted⟩
      · refine .inr ?_
        rw [TaskEffect.settles, refused, kept, uncommitted]
        rfl
      · refine .inr ?_
        rw [TaskEffect.settles, confirmed]
        exact committed
  · obtain ⟨from_least, held, above⟩ := valid.watermark
    have kept : d.confirmedEffectWatermark = 0 ∨ ∃ other ∈ d.effects.set at_ after,
        other.confirmed = true ∧ other.ordinal = d.confirmedEffectWatermark := by
      refine held.imp id fun ⟨other, found, confirmed, equal⟩ =>
        ⟨other, grows.keeps found ?_, confirmed, equal⟩
      rw [of_decide_eq_true confirmed]
      rfl
    rw [mark]
    split
    · rename_i confirms
      refine ⟨Nat.zero_le _, .inr ⟨after, List.mem_set inside _, confirms.2, ?_⟩, ?_⟩
      · refine (Nat.max_eq_right ?_).symm
        rcases held with zero | ⟨other, found, _, equal⟩
        · exact zero ▸ Nat.zero_le _
        · rw [← equal, ordinal, last]
          exact (valid.ordinal_le found).2
      · intro other found confirmed
        rcases List.mem_or_eq_of_mem_set found with before | rfl
        · exact (above other before confirmed).trans (Nat.le_max_left _ _)
        · exact Nat.le_max_right _ _
    · rename_i not_confirms
      refine ⟨from_least, kept, ?_⟩
      intro other found confirmed
      rcases List.mem_or_eq_of_mem_set found with before | rfl
      · exact above other before confirmed
      · refine absurd ⟨fun same => ?_, confirmed⟩ not_confirms
        rw [same, of_decide_eq_true confirmed] at unresolved
        nomatch unresolved

theorem apply_valid {d : Daemon} (valid : d.Valid) (event : DaemonEvent) :
    (d.apply event).Valid := by
  have grows := apply_grows d event
  cases event with
  | opened effectId head tree url =>
      rw [apply]
      split
      · exact valid
      · rename_i none_open
        exact opened_valid valid (Bool.eq_false_iff.mpr none_open) rfl rfl rfl
  | moved ordinal move =>
      rw [apply] at grows ⊢
      split at grows
      · rename_i effect there
        rcases moveEffect_cases move effect with stays | ⟨unresolved, kept, outcome⟩
        · have unset : d.effects.set (ordinal - 1) effect = d.effects := by
            obtain ⟨inside, here⟩ := List.getElem?_eq_some_iff.mp there
            rw [← here]
            exact List.set_getElem_self inside
          have unmarked : mark d.confirmedEffectWatermark effect effect =
              d.confirmedEffectWatermark := if_neg fun changes => changes.1 rfl
          dsimp only
          rw [stays, unset, unmarked]
          exact valid
        · exact moved_valid valid there unresolved kept outcome grows
      · exact valid
  | inputs input covered deadline =>
      exact ⟨valid.ordinals, valid.single, valid.commits, valid.watermark⟩
  | selects task => exact ⟨valid.ordinals, valid.single, valid.commits, valid.watermark⟩

theorem start_valid (taskId : String) : (start taskId).Valid := by
  refine ⟨fun at_ effect found => ?_, fun effect member => ?_, fun effect member => ?_,
    le_rfl, .inl rfl, fun effect member => ?_⟩
  · nomatch found
  · nomatch member
  · nomatch member
  · nomatch member

theorem run_keeps {d : Daemon} (valid : d.Valid) (events : List DaemonEvent) :
    (Run.final apply d events).Valid ∧ d.Grows (Run.final apply d events) := by
  induction events generalizing d with
  | nil => exact ⟨valid, Grows.refl d⟩
  | cons event rest ih =>
      obtain ⟨still, grows⟩ := ih (apply_valid valid event)
      exact ⟨still, (apply_grows d event).trans grows⟩

/-- The history a restored run starts after: resolved up to `saved`. -/
structure Settled (saved : Nat) (d : Daemon) : Prop where
  within : saved ≤ d.effects.length
  settles : ∀ effect ∈ d.effects, effect.ordinal ≤ saved → effect.settles = true

theorem Grows.length_le {before after : Daemon} (grows : before.Grows after) :
    before.effects.length ≤ after.effects.length := by
  rcases Nat.eq_zero_or_pos before.effects.length with empty | some_effect
  · omega
  · have inside : before.effects.length - 1 < before.effects.length := by omega
    obtain ⟨next, there, _⟩ := grows.effects _ _ (List.getElem?_eq_getElem inside)
    obtain ⟨still, _⟩ := List.getElem?_eq_some_iff.mp there
    omega

theorem Grows.settled {before after : Daemon} (grows : before.Grows after) (valid : after.Valid)
    {saved : Nat} (settled : Settled saved before) : Settled saved after := by
  refine ⟨settled.within.trans grows.length_le, fun effect member low => ?_⟩
  obtain ⟨at_, inside, here⟩ := List.getElem_of_mem member
  have found := List.getElem?_eq_some_iff.mpr ⟨inside, here⟩
  have ordinal := valid.ordinals at_ effect found
  have within := settled.within
  have earlier : at_ < before.effects.length := by omega
  obtain ⟨next, there, same_ordinal, same⟩ :=
    grows.effects at_ _ (List.getElem?_eq_getElem earlier)
  obtain rfl : effect = next := Option.some.inj (found.symm.trans there)
  have settles := settled.settles _ (List.getElem_mem earlier) (by omega)
  rw [same (settles_resolved settles)]
  exact settles

theorem Valid.unique {d : Daemon} (valid : d.Valid) {first second : TaskEffect}
    (one : first ∈ d.effects) (two : second ∈ d.effects)
    (same : first.ordinal = second.ordinal) : first = second := by
  obtain ⟨at_, inside, here⟩ := List.getElem_of_mem one
  obtain ⟨there_, within, there⟩ := List.getElem_of_mem two
  have low := valid.ordinals at_ first (List.getElem?_eq_some_iff.mpr ⟨inside, here⟩)
  have high := valid.ordinals there_ second (List.getElem?_eq_some_iff.mpr ⟨within, there⟩)
  obtain rfl : at_ = there_ := by omega
  exact here.symm.trans there

theorem Valid.settled {d : Daemon} (valid : d.Valid) {saved : Nat}
    (confirmed : saved = 0 ∨
      ∃ effect ∈ d.effects, effect.confirmed = true ∧ effect.ordinal = saved) :
    Settled saved d := by
  rcases confirmed with rfl | ⟨last, member, confirmed, rfl⟩
  · refine ⟨Nat.zero_le _, fun effect member low => ?_⟩
    have := valid.ordinal_le member
    omega
  · refine ⟨(valid.ordinal_le member).2, fun effect found low => ?_⟩
    rcases valid.commits effect found with ⟨unresolved, _⟩ | settles
    · have only := valid.single effect found unresolved
      have bound := (valid.ordinal_le member).2
      have same : effect.ordinal = last.ordinal := by omega
      rw [valid.unique found member same, of_decide_eq_true confirmed] at unresolved
      nomatch unresolved
    · exact settles

end Daemon

/-! ## What a call keeps -/

def receipts (messages : List Message) : List TaskEffect :=
  messages.filterMap fun message => match message with
    | .receipt effect => some effect
    | .other _ => none

theorem receipts_append (messages : List Message) (effect : TaskEffect) :
    receipts (messages ++ [.receipt effect]) = receipts messages ++ [effect] := by
  rw [receipts, List.filterMap_append]
  rfl

theorem receipts_other (messages : List Message) (text : String) :
    receipts (messages ++ [.other text]) = receipts messages := by
  rw [receipts, List.filterMap_append]
  exact List.append_nil _

structure Reconciled (saved : Nat) (h : Harness) (d : Daemon) : Prop where
  valid : d.Valid
  settled : d.Settled saved
  /-- Each effect after the saved one, once and in its order. -/
  ordinals : (receipts h.messages).map TaskEffect.ordinal =
    List.range' (saved + 1) (receipts h.messages).length
  reached : h.reconciledEffectOrdinal = saved + (receipts h.messages).length
  recorded : ∀ effect ∈ receipts h.messages, effect ∈ d.effects ∧ effect.settles = true
  watermark : Largest saved h.confirmedEffectWatermark (receipts h.messages)

namespace Reconciled

variable {saved : Nat} {h : Harness} {d : Daemon}

theorem grown (held : Reconciled saved h d) {next : Daemon} (valid : next.Valid)
    (grows : d.Grows next) : Reconciled saved h next :=
  { held with
    valid := valid
    settled := grows.settled valid held.settled
    recorded := fun effect member =>
      have settles := (held.recorded effect member).2
      ⟨grows.keeps (held.recorded effect member).1 (settles_resolved settles), settles⟩ }

theorem recorded_bounds (held : Reconciled saved h d) {effect : TaskEffect}
    (member : effect ∈ receipts h.messages) :
    saved < effect.ordinal ∧ effect.ordinal ≤ h.reconciledEffectOrdinal := by
  have there : effect.ordinal ∈ (receipts h.messages).map TaskEffect.ordinal :=
    List.mem_map_of_mem member
  rw [held.ordinals, List.mem_range'_1] at there
  have reached := held.reached
  omega

theorem receipts_eq (held : Reconciled saved h d) :
    receipts h.messages = (d.effects.take h.reconciledEffectOrdinal).drop saved := by
  have reached := held.reached
  have each : ∀ (at_ : Nat) (inside : at_ < (receipts h.messages).length),
      d.effects[saved + at_]? = some (receipts h.messages)[at_] := by
    intro at_ inside
    have ordinal : (receipts h.messages)[at_].ordinal = saved + 1 + at_ := by
      have mapped := congrArg (·[at_]?) held.ordinals
      rw [List.getElem?_map, List.getElem?_eq_getElem inside, List.getElem?_range' inside] at mapped
      simpa using mapped
    obtain ⟨place, within, here⟩ :=
      List.getElem_of_mem (held.recorded _ (List.getElem_mem inside)).1
    have found := List.getElem?_eq_some_iff.mpr ⟨within, here⟩
    have same := held.valid.ordinals place _ found
    obtain rfl : place = saved + at_ := by omega
    exact found
  apply List.ext_getElem?
  intro at_
  rw [List.getElem?_drop, List.getElem?_take]
  split
  · have inside : at_ < (receipts h.messages).length := by omega
    rw [List.getElem?_eq_getElem inside]
    exact (each at_ inside).symm
  · exact List.getElem?_eq_none (by omega)

theorem resolved_to (held : Reconciled saved h d) {effect : TaskEffect}
    (member : effect ∈ d.effects) (low : effect.ordinal ≤ h.reconciledEffectOrdinal) :
    effect.settles = true := by
  by_cases before : effect.ordinal ≤ saved
  · exact held.settled.settles effect member before
  · have there : effect.ordinal ∈ (receipts h.messages).map TaskEffect.ordinal := by
      rw [held.ordinals, List.mem_range'_1]
      have reached := held.reached
      omega
    obtain ⟨recorded, found, same⟩ := List.mem_map.mp there
    obtain ⟨inside, settles⟩ := held.recorded recorded found
    rw [← held.valid.unique inside member same]
    exact settles

end Reconciled

namespace Flow

variable {saved : Nat}

abbrev InStep (saved : Nat) (f : Flow) : Prop := Reconciled saved f.harness f.daemon

theorem request_keeps {f : Flow} (held : f.InStep saved) :
    f.request.1.InStep saved ∧ f.daemon.Grows f.request.1.daemon ∧
      f.request.1.harness = f.harness := by
  rw [request]
  split
  · exact ⟨held, .refl _, rfl⟩
  · rename_i ask rest _
    obtain ⟨valid, grows⟩ := Daemon.run_keeps held.valid ask.events
    exact ⟨held.grown valid grows, grows, rfl⟩

/-- What `readEffect` hands on is in the history under the ordinal that was listed. -/
theorem readEffect_keeps {f : Flow} (held : f.InStep saved) (previous : TaskEffect)
    (listed : previous.state.unresolved = false → previous ∈ f.daemon.effects) :
    (f.readEffect previous).1.InStep saved ∧
      f.daemon.Grows (f.readEffect previous).1.daemon ∧
      (f.readEffect previous).1.harness = f.harness ∧
      ∀ effect, (f.readEffect previous).2 = some effect →
        effect ∈ (f.readEffect previous).1.daemon.effects ∧
          effect.ordinal = previous.ordinal := by
  obtain ⟨kept, grows, same⟩ := request_keeps held
  rw [readEffect]
  split
  · dsimp only
    split
    · refine ⟨kept, grows, same, fun effect read => ?_⟩
      obtain ⟨found, again⟩ := Option.filter_eq_some_iff.mp read
      exact ⟨List.mem_of_find?_eq_some found, (of_decide_eq_true again).2.1⟩
    · exact ⟨kept, grows, same, fun _ read => nomatch read⟩
  · rename_i resolved
    refine ⟨held, .refl _, rfl, fun effect read => ?_⟩
    obtain rfl : previous = effect := Option.some.inj read
    exact ⟨listed (Bool.eq_false_iff.mpr resolved), rfl⟩

theorem append_keeps {f : Flow} (held : f.InStep saved) {effect : TaskEffect}
    (member : effect ∈ f.daemon.effects) (settles : effect.settles = true)
    (next : effect.ordinal = f.harness.reconciledEffectOrdinal + 1) :
    (f.append effect).InStep saved := by
  have reached := held.reached
  refine ⟨held.valid, held.settled, ?_, ?_, ?_, ?_⟩
  · have ordinals := held.ordinals
    dsimp only [append]
    rw [receipts_append, List.map_append, List.length_append, List.length_singleton,
      List.range'_concat, ordinals, List.map_singleton, next, reached]
    congr 2
    omega
  · dsimp only [append]
    rw [receipts_append, List.length_append, List.length_singleton, next, reached]
    rfl
  · intro other found
    dsimp only [append] at found
    rw [receipts_append] at found
    rcases List.mem_append.mp found with before | last
    · exact held.recorded other before
    · rw [List.mem_singleton.mp last]
      exact ⟨member, settles⟩
  · dsimp only [append]
    rw [receipts_append]
    refine held.watermark.append (fun other found => ?_) (by omega)
    have := held.recorded_bounds found
    omega

/-- One stretch of a call: in step where it ends, under the same turn and inputs. -/
structure Onward (saved : Nat) (f g : Flow) : Prop where
  kept : g.InStep saved
  grows : f.daemon.Grows g.daemon
  prepared : g.harness.prepared = f.harness.prepared
  incorporated : g.harness.incorporatedInputSequence = f.harness.incorporatedInputSequence

theorem Onward.trans {f g k : Flow} (one : Onward saved f g) (two : Onward saved g k) :
    Onward saved f k :=
  ⟨two.kept, one.grows.trans two.grows, two.prepared.trans one.prepared,
    two.incorporated.trans one.incorporated⟩

theorem Onward.same {f g : Flow} (kept : g.InStep saved) (grows : f.daemon.Grows g.daemon)
    (harness : g.harness = f.harness) : Onward saved f g :=
  ⟨kept, grows, congrArg Harness.prepared harness,
    congrArg Harness.incorporatedInputSequence harness⟩

theorem Onward.request {f : Flow} (held : f.InStep saved) : Onward saved f f.request.1 :=
  have ⟨kept, grows, same⟩ := request_keeps held
  .same kept grows same

theorem takeEffect_keeps {f : Flow} (held : f.InStep saved) (previous : TaskEffect)
    (listed : previous.state.unresolved = false → previous ∈ f.daemon.effects) :
    Onward saved f (f.takeEffect previous).1 := by
  have still : Onward saved f f := ⟨held, .refl _, rfl, rfl⟩
  obtain ⟨kept, grows, same, read⟩ := readEffect_keeps held previous listed
  have onward := Onward.same kept grows same
  rw [takeEffect]
  split
  · exact still
  · rename_i in_order
    have next : previous.ordinal = f.harness.reconciledEffectOrdinal + 1 := by
      by_contra skipped
      exact in_order (.inr skipped)
    split
    · rename_i g effect found
      rw [found] at kept grows same read onward
      split
      · rename_i settles
        obtain ⟨member, ordinal⟩ := read effect rfl
        have appended := append_keeps kept member settles
          ((ordinal.trans next).trans (congrArg (·.reconciledEffectOrdinal + 1) same.symm))
        exact ⟨appended, grows, onward.prepared, onward.incorporated⟩
      · exact onward
    · rename_i g found
      rw [found] at onward
      exact onward

theorem takeEffects_keeps {page : List TaskEffect} {f : Flow} (held : f.InStep saved)
    (listed : ∀ effect ∈ page, effect.state.unresolved = false → effect ∈ f.daemon.effects) :
    Onward saved f (f.takeEffects page).1 := by
  induction page generalizing f with
  | nil => exact ⟨held, .refl _, rfl, rfl⟩
  | cons previous rest ih =>
      have first := takeEffect_keeps held previous (listed previous List.mem_cons_self)
      rw [takeEffects]
      split
      · rename_i g taken
        rw [taken] at first
        -- An effect listed as resolved stays in the history as it was listed.
        refine first.trans (ih first.kept fun effect member resolved => ?_)
        exact first.grows.keeps (listed effect (List.mem_cons_of_mem _ member) resolved) resolved
      · rename_i g taken
        rw [taken] at first
        exact first

theorem takePages_keeps {f : Flow} (held : f.InStep saved) (taskId : String) (left : Nat) :
    Onward saved f (f.takePages taskId left).1 := by
  induction left generalizing f with
  | zero => exact ⟨held, .refl _, rfl, rfl⟩
  | succ left ih =>
      rw [takePages]
      split
      · exact ⟨held, .refl _, rfl, rfl⟩
      · have asked := Onward.request held
        split
        · rename_i g answered
          rw [answered] at asked
          exact asked
        · rename_i g answered
          rw [answered] at asked
          split
          · exact asked
          · dsimp only
            have listed : ∀ effect ∈
                (g.daemon.list g.harness.reconciledEffectOrdinal pageLimit).effects,
                effect.state.unresolved = false → effect ∈ g.daemon.effects :=
              fun effect member _ => List.mem_of_mem_filter (List.mem_of_mem_take member)
            have taken := takeEffects_keeps asked.kept listed
            split
            · rename_i k walked
              rw [walked] at taken
              exact asked.trans taken
            · rename_i k walked
              rw [walked] at taken
              split
              · exact asked.trans taken
              · exact asked.trans (taken.trans (ih taken.kept))

structure Complete (h : Harness) (d : Daemon) : Prop where
  cursor : h.reconciledEffectOrdinal = d.effectCursor
  settled : ∀ effect ∈ d.effects, effect.settles = true
  watermark : Largest 0 h.confirmedEffectWatermark d.effects
  covered : h.incorporatedInputSequence = d.coveredInputSequence
  current : h.incorporatedInputSequence = d.inputSequence

theorem readInputs_keeps {f : Flow} (held : f.InStep saved) (prepared : Prepared)
    (taskId : String) :
    (f.readInputs prepared taskId).1.InStep saved ∧
      f.daemon.Grows (f.readInputs prepared taskId).1.daemon ∧
      ((f.readInputs prepared taskId).2 = true →
        Complete (f.readInputs prepared taskId).1.harness
          (f.readInputs prepared taskId).1.daemon) := by
  obtain ⟨kept, grows, same⟩ := request_keeps held
  rw [readInputs]
  split
  · rename_i g asked
    rw [asked] at kept grows
    exact ⟨kept, grows, fun failed => nomatch failed⟩
  · rename_i g asked
    rw [asked] at kept grows
    split
    · exact ⟨kept, grows, fun failed => nomatch failed⟩
    · rename_i current shown
      split
      · exact ⟨kept, grows, fun failed => nomatch failed⟩
      · rename_i agrees
        simp only [not_or, ne_eq, Decidable.not_not] at agrees
        obtain ⟨_, watermark, cursor, covered, input⟩ := agrees
        obtain ⟨id, _, rfl⟩ := Option.map_eq_some_iff.mp shown
        refine ⟨⟨kept.valid, kept.settled, kept.ordinals, kept.reached, kept.recorded,
          kept.watermark⟩, grows, fun _ => ⟨cursor.symm, fun effect member => ?_, ?_,
            covered.symm, input.symm⟩⟩
        · refine kept.resolved_to member ?_
          rw [← cursor]
          exact (kept.valid.ordinal_le member).2
        · dsimp only
          rw [← watermark]
          exact kept.valid.watermark

/-- A call, however it ends, leaves the run in step; where its turn may act it
succeeds only over a complete history. -/
theorem reconcile_keeps {f : Flow} (held : f.InStep saved) :
    f.reconcile.1.InStep saved ∧ f.daemon.Grows f.reconcile.1.daemon ∧
      ((∃ prepared, f.harness.prepared = some prepared ∧ prepared.allowActions = true) →
        f.reconcile.2 = true → Complete f.reconcile.1.harness f.reconcile.1.daemon) := by
  rw [reconcile]
  split
  · rename_i idle
    refine ⟨held, .refl _, fun ⟨prepared, here, allowed⟩ _ => ?_⟩
    rw [here, Option.filter_some, if_pos allowed] at idle
    nomatch idle
  · rename_i prepared _
    split
    · exact ⟨held, .refl _, fun _ failed => nomatch failed⟩
    · rename_i taskId _
      have walked := takePages_keeps held taskId pagesMax
      split
      · rename_i g pages
        rw [pages] at walked
        exact ⟨walked.kept, walked.grows, fun _ failed => nomatch failed⟩
      · rename_i g pages
        rw [pages] at walked
        obtain ⟨kept, grows, complete⟩ := readInputs_keeps walked.kept prepared taskId
        exact ⟨kept, walked.grows.trans grows, fun _ => complete⟩

end Flow

/-! ## Whole runs -/

/-- A run over its task's publications; its messages are those said since its opening. -/
structure Conversation where
  harness : Harness
  daemon : Daemon

inductive Event where
  | daemon (event : DaemonEvent)
  /-- The task the lease prepared, or prepares next. -/
  | prepares (task : Option Prepared)
  | spoke (text : String)
  | incorporates (inputSequence : Nat)
  | reconcile (asks : List Ask)

namespace Conversation

/-- A run restored at a saved watermark; a first run starts at 0. -/
def restored (d : Daemon) (prepared : Option Prepared) (saved incorporated : Nat) : Conversation :=
  ⟨⟨prepared, [], incorporated, saved, saved⟩, d⟩

/-- A call of `reconcile_task_effects`. -/
def call (c : Conversation) (asks : List Ask) : Flow × Bool :=
  Flow.reconcile ⟨c.harness, c.daemon, asks⟩

def step (c : Conversation) : Event → Conversation
  | .daemon event => { c with daemon := c.daemon.apply event }
  | .prepares task => { c with harness := { c.harness with prepared := task } }
  | .spoke text =>
      { c with
        harness := { c.harness with messages := c.harness.messages ++ [.other text] } }
  | .incorporates inputSequence =>
      { c with harness := { c.harness with incorporatedInputSequence := inputSequence } }
  | .reconcile asks => ⟨(c.call asks).1.harness, (c.call asks).1.daemon⟩

def MayAct (c : Conversation) : Prop :=
  ∃ prepared, c.harness.prepared = some prepared ∧ prepared.allowActions = true

abbrev InStep (saved : Nat) (c : Conversation) : Prop := Reconciled saved c.harness c.daemon

theorem restored_inStep {d : Daemon} (valid : d.Valid) {saved : Nat} (prepared : Option Prepared)
    (incorporated : Nat) (confirmed : saved = 0 ∨
      ∃ effect ∈ d.effects, effect.confirmed = true ∧ effect.ordinal = saved) :
    (restored d prepared saved incorporated).InStep saved :=
  { valid := valid
    settled := valid.settled confirmed
    ordinals := rfl
    reached := rfl
    recorded := fun _ member => nomatch member
    watermark := ⟨le_rfl, .inl rfl, fun _ member => nomatch member⟩ }

theorem step_inStep (saved : Nat) (c : Conversation) (event : Event) (held : c.InStep saved) :
    (c.step event).InStep saved := by
  cases event with
  | daemon event => exact held.grown (Daemon.apply_valid held.valid event) (Daemon.apply_grows _ _)
  | prepares task =>
      exact ⟨held.valid, held.settled, held.ordinals, held.reached, held.recorded, held.watermark⟩
  | spoke text =>
      have unchanged := receipts_other c.harness.messages text
      refine ⟨held.valid, held.settled, ?_, ?_, ?_, ?_⟩
      all_goals dsimp only [step]; rw [unchanged]
      · exact held.ordinals
      · exact held.reached
      · exact held.recorded
      · exact held.watermark
  | incorporates inputSequence =>
      exact ⟨held.valid, held.settled, held.ordinals, held.reached, held.recorded, held.watermark⟩
  | reconcile asks => exact (Flow.reconcile_keeps (f := ⟨c.harness, c.daemon, asks⟩) held).1

theorem call_idle {c : Conversation} (idle : ¬ c.MayAct) (asks : List Ask) :
    c.call asks = (⟨c.harness, c.daemon, asks⟩, true) := by
  rw [call, Flow.reconcile]
  dsimp only
  split
  · rfl
  · rename_i prepared found
    obtain ⟨here, allowed⟩ := Option.filter_eq_some_iff.mp found
    exact absurd ⟨prepared, here, allowed⟩ idle

/-- Over every history and every run of calls that fail anywhere and are made again: the
receipts are the history from the saved ordinal to the one reached, each once and in its
order, resolved, the watermark their largest confirmation. A call whose turn may act
succeeds over a complete history only; any other succeeds at once and does nothing. -/
theorem receipts_in_step (taskId : String) (history : List DaemonEvent)
    (prepared : Option Prepared) (saved incorporated : Nat)
    (confirmed : saved = 0 ∨
      ∃ effect ∈ (Run.final Daemon.apply (Daemon.start taskId) history).effects,
        effect.confirmed = true ∧ effect.ordinal = saved)
    (events : List Event) :
    ∀ reached ∈ Run.states step
        (restored (Run.final Daemon.apply (Daemon.start taskId) history) prepared saved
          incorporated) events,
      receipts reached.harness.messages =
          (reached.daemon.effects.take reached.harness.reconciledEffectOrdinal).drop saved ∧
        reached.harness.reconciledEffectOrdinal =
          saved + (receipts reached.harness.messages).length ∧
        (∀ effect ∈ receipts reached.harness.messages, effect.settles = true) ∧
        Largest saved reached.harness.confirmedEffectWatermark
          (receipts reached.harness.messages) ∧
        ∀ asks : List Ask,
          (reached.MayAct → (reached.call asks).2 = true →
            Flow.Complete (reached.call asks).1.harness (reached.call asks).1.daemon ∧
              receipts (reached.call asks).1.harness.messages =
                (reached.call asks).1.daemon.effects.drop saved) ∧
          (¬ reached.MayAct →
            reached.call asks = (⟨reached.harness, reached.daemon, asks⟩, true)) := by
  have valid := (Daemon.run_keeps (Daemon.start_valid taskId) history).1
  have always := Run.invariant_of_step (InStep saved) (step_inStep saved)
    (restored_inStep valid prepared incorporated confirmed) events
  intro reached member
  have held := always reached member
  refine ⟨held.receipts_eq, held.reached, fun effect found => (held.recorded effect found).2,
    held.watermark, fun asks => ⟨fun acts succeeds => ?_, fun idle => call_idle idle asks⟩⟩
  obtain ⟨kept, _, complete⟩ :=
    Flow.reconcile_keeps (f := ⟨reached.harness, reached.daemon, asks⟩) held
  have whole := complete acts succeeds
  refine ⟨whole, ?_⟩
  have slice := kept.receipts_eq
  rw [whole.cursor] at slice
  rw [call, slice, Daemon.effectCursor, List.take_length]

/-- One effect confirmed, the next one refused once it is read again, and a
request lost on the way. -/
theorem receipts_in_step_retried :
    let history : List DaemonEvent :=
      [.opened "a" "h" "t" "u", .moved 1 .issued, .moved 1 (.confirmed "c"),
        .opened "b" "h" "t" "u"]
    let began := restored (Run.final Daemon.apply (Daemon.start "task") history)
      (some ⟨true, some "task", none⟩) 0 0
    let events : List Event :=
      [.daemon (.selects (some "task")), .reconcile [⟨[], false, true⟩, ⟨[], false, false⟩]]
    let reached := Run.final step began events
    let asks : List Ask :=
      [⟨[], false, true⟩, ⟨[.moved 2 .refused], false, true⟩, ⟨[], false, true⟩]
    (receipts reached.harness.messages).map TaskEffect.ordinal = [1] ∧
      (reached.call asks).2 = true ∧
      Flow.Complete (reached.call asks).1.harness (reached.call asks).1.daemon ∧
      receipts (reached.call asks).1.harness.messages =
        (reached.call asks).1.daemon.effects.drop 0 ∧
      (reached.call asks).1.daemon.effects.length = 2 := by
  intro history began events reached asks
  obtain ⟨_, _, _, _, calls⟩ := receipts_in_step "task" history (some ⟨true, some "task", none⟩) 0 0
    (.inl rfl) events reached (Run.final_mem_states step began events)
  have succeeds : (reached.call asks).2 = true := by decide
  obtain ⟨complete, whole⟩ := (calls asks).1 ⟨⟨true, some "task", none⟩, rfl, rfl⟩ succeeds
  exact ⟨by decide, succeeds, complete, whole, by decide⟩

/-- A call of a run whose turn may not act succeeds beside an open effect. -/
theorem idle_call_succeeds :
    ¬ ∀ (taskId : String) (history : List DaemonEvent) (prepared : Option Prepared)
        (incorporated : Nat) (asks : List Ask),
        let began := restored (Run.final Daemon.apply (Daemon.start taskId) history) prepared 0
          incorporated
        (began.call asks).2 = true →
          ∀ effect ∈ (began.call asks).1.daemon.effects, effect.settles = true := by
  intro claimed
  have settles := claimed "task" [.opened "a" "h" "t" "u"] (some ⟨false, some "task", none⟩) 0 []
    rfl _ List.mem_cons_self
  nomatch settles

end Conversation

end Agentsfleet.Task.Reconcile
