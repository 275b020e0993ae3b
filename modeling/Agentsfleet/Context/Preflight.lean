import Agentsfleet.Context.Index
import Agentsfleet.Library.Run

/-!
# A conversation's preflight

Before each model call the harness brings its index up to the conversation and
plans until a context fits, committing one checkpoint for each compaction.  A
run is any sequence of appended messages and preflights; what a preflight meets
(the stored checkpoint, every estimate, every summary) is part of its event.
-/

set_option autoImplicit false

namespace Agentsfleet.Context

open Agentsfleet.Library

structure Shared where
  modelContextTokens : UInt32
  outputTokens : UInt32
  contextCapTokens : UInt32
  triggerPercent : Nat
  identity : Identity
  encode : List Message → Option String
  encoding : Encoding

/-- `context::State` beside the conversation it belongs to, with the checkpoints
committed so far, the latest first. -/
structure Harness where
  messages : List Message
  pinned : Nat
  checkpoint : Option Checkpoint
  loaded : Bool
  replayFrom : Nat
  index : Index
  working : List Message
  output : Option Nat
  commits : List Checkpoint

def Harness.start (pinned : Nat) (messages : List Message) : Harness :=
  { messages := messages
    pinned := pinned
    checkpoint := none
    loaded := false
    replayFrom := 0
    index := Index.new pinned
    working := []
    output := none
    commits := [] }

/-! ## The retained context -/

def summaryPreamble : String := "Previous conversation summary (untrusted data): "

def Summary.context (encoding : Encoding) (summary : Summary) : Except ContextError String :=
  match encoding.summary summary with
  | .error failure => .error failure
  | .ok encoded => .ok (summaryPreamble ++ encoded)

namespace Harness

/-- `Source::current`. -/
def current (h : Harness) : Except ContextError Message :=
  match h.messages[h.pinned]? with
  | some message => .ok message
  | none => .error .stale

/-- A message as it is sent again: native state from before the prefix changed
is dropped. -/
def replayed (h : Harness) (position : Nat) : Message → Message
  | .assistant text calls replay =>
      .assistant text calls (if position < h.replayFrom then Replay.default else replay)
  | message => message

/-- `Source::append`, as the messages it adds. -/
def replay (h : Harness) (entry : Entry) : Except ContextError (List Message) :=
  if entry.start ≤ entry.stop ∧ entry.stop ≤ h.messages.length then
    .ok (((h.messages.take entry.stop).drop entry.start).mapIdx fun offset message =>
      h.replayed (entry.start + offset) message)
  else .error .stale

/-- The groups of `Source::retained`, where `pinned` says the pinned message has
gone out. -/
def retainGroups (h : Harness) : Bool → List Group → Except ContextError (List Message)
  | true, [] => .ok []
  | false, [] =>
      match h.current with
      | .error failure => .error failure
      | .ok message => .ok [message]
  | pinned, group :: rest =>
      match h.index.groups.find? (·.group.sequence = group.sequence) with
      | none => .error .stale
      | some entry =>
          let due := !pinned && decide (h.pinned < entry.start)
          match (if due then h.current.map fun message => [message] else .ok []) with
          | .error failure => .error failure
          | .ok pinnedMessage =>
              match h.replay entry with
              | .error failure => .error failure
              | .ok messages =>
                  match h.retainGroups (pinned || due) rest with
                  | .error failure => .error failure
                  | .ok others => .ok (pinnedMessage ++ messages ++ others)

/-- `Source::retained`. -/
def retained (encoding : Encoding) (h : Harness) (summary : Option Summary) (groups : List Group) :
    Except ContextError (List Message) :=
  match summary with
  | none => h.retainGroups false groups
  | some summary =>
      match summary.context encoding with
      | .error failure => .error failure
      | .ok notes =>
          match h.retainGroups false groups with
          | .error failure => .error failure
          | .ok messages => .ok (.user notes :: messages)

end Harness

/-! ## Preflight -/

/-- The window of `context_parameters`. -/
def Shared.window (shared : Shared) : Except ContextError Window :=
  match Window.new shared.modelContextTokens shared.outputTokens with
  | .error failure => .error failure
  | .ok window =>
      .ok ((window.withOperatingTokens shared.contextCapTokens).withTriggerPercent
        shared.triggerPercent)

structure Turn where
  estimator : TokenEstimator
  stopped : Nat → Bool
  execution : Execution

namespace Harness

/-- What the store answers is taken up once, before the first plan. -/
def load (h : Harness) (stored : Except ContextError (Option Checkpoint)) :
    Harness × Except ContextError Unit :=
  if h.loaded then (h, .ok ())
  else
    match stored with
    | .error failure => (h, .error failure)
    | .ok checkpoint =>
        ({ h with
            checkpoint := checkpoint
            replayFrom := if checkpoint.isSome then h.messages.length else h.replayFrom
            loaded := true }, .ok ())

/-- `prepare` over the conversation's index. -/
def plan (shared : Shared) (window : Window) (h : Harness) (estimator : TokenEstimator)
    (stopped : Nat → Bool) : Option (Except ContextError Plan) :=
  prepare shared.encoding (pages (h.index.groups.map Entry.group)) estimator shared.identity
    h.checkpoint window stopped (h.index.groups.length + 1)

def committed (h : Harness) (checkpoint : Checkpoint) : Harness :=
  { h with
    checkpoint := some checkpoint
    replayFrom := h.messages.length
    commits := checkpoint :: h.commits }

/-- The loop of `preflight`; `none` where it is still waiting for what comes next. -/
def settle (shared : Shared) (window : Window) :
    List Turn → Harness → Harness × Option (Except ContextError Unit)
  | [], h => (h, none)
  | turn :: turns, h =>
      match h.plan shared window turn.estimator turn.stopped with
      | none => (h, none)
      | some (.error failure) => (h, some (.error failure))
      | some (.ok (.ready summary groups outputTokens)) =>
          match h.retained shared.encoding summary groups with
          | .error failure => (h, some (.error failure))
          | .ok working =>
              ({ h with working := working, output := some outputTokens }, some (.ok ()))
      | some (.ok (.compact task)) =>
          match execute shared.encoding task turn.execution with
          | .error failure => (h, some (.error failure))
          | .ok checkpoint => settle shared window turns (h.committed checkpoint)

/-- `Harness::preflight`. -/
def preflight (shared : Shared) (h : Harness) (stored : Except ContextError (Option Checkpoint))
    (turns : List Turn) : Harness × Option (Except ContextError Unit) :=
  if shared.modelContextTokens = 0 then ({ h with working := h.messages }, some (.ok ()))
  else
    match h.load stored with
    | (h, .error failure) => (h, some (.error failure))
    | (h, .ok ()) =>
        match shared.window with
        | .error failure => (h, some (.error failure))
        | .ok window =>
            match h.index.refresh shared.encode h.messages with
            | (index, .error failure) => ({ h with index := index }, some (.error failure))
            | (index, .ok ()) => settle shared window turns { h with index := index }

end Harness

/-! ## Runs -/

inductive Event where
  | grow (more : List Message)
  | preflight (stored : Except ContextError (Option Checkpoint)) (turns : List Turn)

def step (shared : Shared) (h : Harness) : Event → Harness
  | .grow more => { h with messages := h.messages ++ more }
  | .preflight stored turns => (h.preflight shared stored turns).1

/-! ## What stays true of every run -/

section Runs

variable (shared : Shared)

def StandsFor (pinned : Nat) (messages : List Message) (checkpoint : Checkpoint) : Prop :=
  ∃ front back entries, spans pinned 0 messages = front ++ back ∧
    List.Forall₂ (Encodes shared.encode) front entries ∧
    checkpoint.Covers shared.encoding (entries.map Entry.group)

/-- What a run's bookkeeping keeps: the index belongs to the conversation up to
its last refresh, and the checkpoint in use is the last one committed. -/
structure Harness.Sound (h : Harness) : Prop where
  pinned : h.index.pinned = h.pinned
  index : ∃ read more, h.messages = read ++ more ∧ h.index.Follows shared.encode read
  latest : ∀ checkpoint, h.commits.head? = some checkpoint →
    h.loaded = true ∧ h.checkpoint = some checkpoint ∧
      checkpoint.belongsTo shared.identity = true

def Harness.Stands (h : Harness) : Prop :=
  ∀ checkpoint ∈ h.commits, StandsFor shared h.pinned h.messages checkpoint

/-- A committed checkpoint stays valid: every digest committed still verifies
over the conversation's groups, and once something was committed, planning over
the index as refreshed now never answers stale. -/
structure Harness.CheckpointsValid (h : Harness) : Prop where
  verifies : h.Stands shared
  neverStale : h.commits ≠ [] → ∀ index, h.index.refresh shared.encode h.messages =
      (index, .ok ()) →
    ∀ window estimator stopped,
      Harness.plan shared window { h with index := index } estimator stopped ≠
        some (.error .stale)

/-- A growth that leaves every committed checkpoint alone: the first message does
not join the conversation's last group while a checkpoint covers that group. -/
def Harness.Spares (h : Harness) : Event → Prop
  | .grow more =>
      ∀ checkpoint ∈ h.commits, checkpoint.coveredThrough = h.messages.length →
        ∀ message, more.head? = some message →
          ¬ Joins h.pinned h.messages.length h.messages message
  | .preflight .. => True

variable {shared}

/-! ### The index and the layout it holds -/

theorem encoded_sequences {encode : List Message → Option String} {layout : List Span}
    {entries : List Entry} (held : List.Forall₂ (Encodes encode) layout entries) :
    (entries.map Entry.group).map Group.sequence = layout.map Span.stop := by
  induction held with
  | nil => rfl
  | cons first _ ih =>
      obtain ⟨text, _, rfl⟩ := first
      simp only [List.map_cons, ih]

theorem ordered_of_placed {index : Nat} {messages : List Message} {layout : List Span}
    (placed : Placed index messages layout) {groups : List Group}
    (sequences : groups.map Group.sequence = layout.map Span.stop) : Ordered groups where
  positive := by
    intro group member
    have stop : group.sequence ∈ layout.map Span.stop := by
      rw [← sequences]
      exact List.mem_map_of_mem member
    obtain ⟨span, inside, same⟩ := List.mem_map.mp stop
    have := placed.within span inside
    omega
  ascending := by
    have stops : (layout.map Span.stop).Pairwise (· < ·) := by
      rw [List.pairwise_map]
      refine placed.apart.imp_of_mem ?_
      intro earlier later _ member before
      have := (placed.within later member).2.1
      omega
    rw [← sequences, List.pairwise_map] at stops
    exact stops

theorem Index.Complete.ordered {encode : List Message → Option String} {index : Index}
    {messages : List Message} (complete : index.Complete encode messages) :
    Ordered (index.groups.map Entry.group) :=
  ordered_of_placed (spans_placed _ 0 messages) (encoded_sequences complete)

theorem encoded_front {encode : List Message → Option String} {front back : List Span}
    {entries all : List Entry} (held : List.Forall₂ (Encodes encode) (front ++ back) all)
    (first : List.Forall₂ (Encodes encode) front entries) : entries <+: all := by
  induction first generalizing all with
  | nil => exact List.nil_prefix
  | cons head _ ih =>
      cases held with
      | cons other others =>
          obtain ⟨text, encoded, rfl⟩ := head
          obtain ⟨again, same, rfl⟩ := other
          rw [encoded, Option.some.injEq] at same
          subst same
          exact List.cons_prefix_cons.mpr ⟨rfl, ih others⟩

theorem Index.Complete.standsFor {index : Index} {messages : List Message}
    (complete : index.Complete shared.encode messages) {checkpoint : Checkpoint}
    {covered : List Group} (begins : covered <+: index.groups.map Entry.group)
    (covers : checkpoint.Covers shared.encoding covered) :
    StandsFor shared index.pinned messages checkpoint := by
  refine ⟨(spans index.pinned 0 messages).take covered.length, _, index.groups.take covered.length,
    (List.take_append_drop _ _).symm, List.forall₂_take _ complete, ?_⟩
  rw [List.map_take, ← List.prefix_iff_eq_take.mp begins]
  exact covers

theorem Index.Complete.covers {index : Index} {messages : List Message}
    (complete : index.Complete shared.encode messages) {checkpoint : Checkpoint}
    (stands : StandsFor shared index.pinned messages checkpoint) :
    ∃ covered, covered <+: index.groups.map Entry.group ∧
      checkpoint.Covers shared.encoding covered := by
  obtain ⟨front, back, entries, split, held, covers⟩ := stands
  have whole : List.Forall₂ (Encodes shared.encode) (front ++ back) index.groups := split ▸ complete
  exact ⟨_, (encoded_front whole held).map _, covers⟩

/-! ### Preflights -/

theorem filter_belongs {checkpoint : Checkpoint} {identity : Identity}
    (belongs : checkpoint.belongsTo identity = true) :
    (some checkpoint).filter (·.belongsTo identity) = some checkpoint := by
  simp [Option.filter, belongs]

variable (shared) in
theorem Harness.plan_answers (h : Harness) (window : Window) (estimator : TokenEstimator)
    (stopped : Nat → Bool) (complete : h.index.Complete shared.encode h.messages) :
    ∃ answer, Harness.plan shared window h estimator stopped = some answer ∧
      Answers shared.encoding (requestOf estimator shared.identity h.checkpoint window)
        (h.index.groups.map Entry.group) answer :=
  prepare_spec shared.encoding complete.ordered estimator shared.identity h.checkpoint window
    stopped (by simp)

theorem Harness.commit_covers (h : Harness) {window : Window} {turn : Turn} {task : Compaction}
    {checkpoint : Checkpoint} (complete : h.index.Complete shared.encode h.messages)
    (planned : Harness.plan shared window h turn.estimator turn.stopped =
      some (.ok (.compact task)))
    (executed : execute shared.encoding task turn.execution = .ok checkpoint) :
    ∃ covered spared,
      Covered shared.encoding (h.checkpoint.filter (·.belongsTo shared.identity)) covered ∧
      h.index.groups.map Entry.group = covered ++ (task.groups ++ spared) ∧ task.groups ≠ [] ∧
      checkpoint.Covers shared.encoding (covered ++ task.groups) ∧
      checkpoint.belongsTo shared.identity = true := by
  obtain ⟨answer, answered, spec⟩ :=
    h.plan_answers shared window turn.estimator turn.stopped complete
  rw [planned, Option.some.injEq] at answered
  subst answered
  obtain ⟨identity, _, prior, _, nonempty, covered, spared, covers, split, _⟩ := spec
  have records := execute_records shared.encoding task turn.execution checkpoint executed
  have chained : task.priorDigest = digestGroups shared.encoding "" covered := by
    rw [prior]
    cases stored : (requestOf turn.estimator shared.identity h.checkpoint window).checkpoint with
    | none =>
        rw [stored] at covers
        rw [show covered = [] from covers]
        rfl
    | some known =>
        rw [stored] at covers
        exact covers.digest.symm
  have belongs := records.belongsTo
  rw [identity] at belongs
  exact ⟨covered, spared, covers, split, nonempty, records.covers covered chained, belongs⟩

theorem Harness.commit_standsFor (h : Harness) {window : Window} {turn : Turn} {task : Compaction}
    {checkpoint : Checkpoint} (complete : h.index.Complete shared.encode h.messages)
    (planned : Harness.plan shared window h turn.estimator turn.stopped =
      some (.ok (.compact task)))
    (executed : execute shared.encoding task turn.execution = .ok checkpoint) :
    StandsFor shared h.index.pinned h.messages checkpoint ∧
      checkpoint.belongsTo shared.identity = true := by
  obtain ⟨covered, spared, -, split, -, covers, belongs⟩ :=
    h.commit_covers complete planned executed
  have begins : covered ++ task.groups <+: h.index.groups.map Entry.group :=
    ⟨spared, by rw [split, List.append_assoc]⟩
  exact ⟨complete.standsFor begins covers, belongs⟩

/-- What the loop keeps, by induction on its turns: a complete index and the
checkpoints committed on it. -/
theorem Harness.settle_keeps (window : Window) (turns : List Turn) (h : Harness)
    (sound : h.Sound shared) (stands : h.Stands shared) (loaded : h.loaded = true)
    (complete : h.index.Complete shared.encode h.messages) :
    (Harness.settle shared window turns h).1.Sound shared ∧
      (Harness.settle shared window turns h).1.Stands shared := by
  induction turns generalizing h with
  | nil => exact ⟨sound, stands⟩
  | cons turn turns ih =>
      unfold Harness.settle
      cases planned : Harness.plan shared window h turn.estimator turn.stopped with
      | none => exact ⟨sound, stands⟩
      | some answer =>
          cases answer with
          | error failure => exact ⟨sound, stands⟩
          | ok plan =>
              cases plan with
              | ready summary groups outputTokens =>
                  simp only
                  split
                  · exact ⟨sound, stands⟩
                  · exact ⟨⟨sound.pinned, sound.index, sound.latest⟩, stands⟩
              | compact task =>
                  simp only
                  cases executed : execute shared.encoding task turn.execution with
                  | error failure => exact ⟨sound, stands⟩
                  | ok checkpoint =>
                      obtain ⟨fresh, belongs⟩ := h.commit_standsFor complete planned executed
                      rw [sound.pinned] at fresh
                      refine ih (h.committed checkpoint) ⟨sound.pinned, sound.index, ?_⟩ ?_
                        loaded complete
                      · intro latest first
                        simp only [Harness.committed, List.head?_cons, Option.some.injEq] at first
                        subst first
                        exact ⟨loaded, rfl, belongs⟩
                      · intro known member
                        simp only [Harness.committed, List.mem_cons] at member
                        rcases member with rfl | earlier
                        · exact fresh
                        · exact stands known earlier

theorem Harness.load_keeps (h : Harness) (stored : Except ContextError (Option Checkpoint))
    (sound : h.Sound shared) (stands : h.Stands shared) :
    (h.load stored).1.Sound shared ∧ (h.load stored).1.Stands shared ∧
      (h.load stored).1.messages = h.messages ∧
      ((h.load stored).2 = .ok () → (h.load stored).1.loaded = true) := by
  unfold Harness.load
  by_cases loaded : h.loaded = true
  · rw [if_pos loaded]
    exact ⟨sound, stands, rfl, fun _ => loaded⟩
  · rw [if_neg loaded]
    cases stored with
    | error failure => exact ⟨sound, stands, rfl, by simp⟩
    | ok checkpoint =>
        refine ⟨⟨sound.pinned, sound.index, ?_⟩, stands, rfl, fun _ => rfl⟩
        -- nothing was committed before the store was first read
        intro latest first
        exact absurd (sound.latest latest first).1 loaded

theorem Harness.preflight_keeps (h : Harness) (stored : Except ContextError (Option Checkpoint))
    (turns : List Turn) (sound : h.Sound shared) (stands : h.Stands shared) :
    (h.preflight shared stored turns).1.Sound shared ∧
      (h.preflight shared stored turns).1.Stands shared := by
  unfold Harness.preflight
  split
  · exact ⟨⟨sound.pinned, sound.index, sound.latest⟩, stands⟩
  · have loading := h.load_keeps stored sound stands
    rcases loads : h.load stored with ⟨next, outcome⟩
    rw [loads] at loading
    obtain ⟨next_sound, next_stands, same, loaded⟩ := loading
    cases outcome with
    | error failure => exact ⟨next_sound, next_stands⟩
    | ok done =>
        simp only
        split
        · exact ⟨next_sound, next_stands⟩
        · rename_i window _
          obtain ⟨read, more, grown, follows⟩ := next_sound.index
          have refreshed := next.index.refresh_spec read more follows
          rw [← grown] at refreshed
          obtain ⟨pinned, partly, ended⟩ := refreshed
          rcases result : next.index.refresh shared.encode next.messages with ⟨index, outcome⟩
          rw [result] at pinned partly ended
          have indexed : ({ next with index := index } : Harness).Sound shared :=
            ⟨pinned.trans next_sound.pinned,
              ⟨next.messages, [], (List.append_nil _).symm, partly⟩, next_sound.latest⟩
          cases outcome with
          | error failure => exact ⟨indexed, next_stands⟩
          | ok done =>
              rcases ended with ⟨_, complete⟩ | failed
              · exact Harness.settle_keeps window turns { next with index := index } indexed
                  next_stands (loaded rfl) complete
              · contradiction

/-! ### Growth -/

theorem covered_stop {checkpoint : Checkpoint} {front : List Span} {entries : List Entry}
    (held : List.Forall₂ (Encodes shared.encode) front entries)
    (covers : checkpoint.Covers shared.encoding (entries.map Entry.group)) :
    front.getLast?.map Span.stop = some checkpoint.coveredThrough := by
  rw [← List.getLast?_map, ← encoded_sequences held, List.getLast?_map, covers.watermark]

theorem Harness.grow_stands_iff (h : Harness) (more : List Message) (stands : h.Stands shared) :
    (step shared h (.grow more)).Stands shared ↔ h.Spares (.grow more) := by
  constructor
  · intro still checkpoint member reached message first joins
    obtain ⟨front, back, entries, split, held, covers⟩ := stands checkpoint member
    obtain ⟨next, later, others, grown, next_held, next_covers⟩ := still checkpoint member
    have ends := covered_stop held covers
    have next_ends := covered_stop next_held next_covers
    obtain ⟨last, last_mem, stop⟩ := Option.map_eq_some_iff.mp ends
    obtain ⟨moved, moved_mem, moved_stop⟩ := Option.map_eq_some_iff.mp next_ends
    have gone := spans_lost h.messages more last
      (split ▸ List.mem_append_left back (List.mem_of_getLast? last_mem)) (stop.trans reached)
      message first joins moved
        (grown ▸ List.mem_append_left later (List.mem_of_getLast? moved_mem))
    exact gone (moved_stop.trans reached)
  · intro spares checkpoint member
    obtain ⟨front, back, entries, split, held, covers⟩ := stands checkpoint member
    have ends := covered_stop held covers
    obtain ⟨later, grown⟩ := spans_stay h.messages more front back split (by
      intro last last_mem stop message first
      rw [last_mem, Option.map_some, Option.some.injEq] at ends
      exact spares checkpoint member (ends.symm.trans stop) message first)
    exact ⟨front, later, entries, grown, held, covers⟩

theorem Harness.grow_sound (h : Harness) (more : List Message) (sound : h.Sound shared) :
    (step shared h (.grow more)).Sound shared := by
  obtain ⟨read, since, grown, follows⟩ := sound.index
  refine ⟨sound.pinned, ⟨read, since ++ more, ?_, follows⟩, sound.latest⟩
  simp only [step]
  rw [grown, List.append_assoc]

theorem Harness.checkpointsValid_iff (h : Harness) (sound : h.Sound shared) :
    h.CheckpointsValid shared ↔ h.Stands shared := by
  constructor
  · exact CheckpointsValid.verifies
  · intro stands
    refine ⟨stands, ?_⟩
    intro committed index refreshed window estimator stopped planned
    obtain ⟨latest, earlier, commits⟩ := List.exists_cons_of_ne_nil committed
    obtain ⟨_, stored, belongs⟩ := sound.latest latest (by rw [commits]; rfl)
    obtain ⟨read, more, grown, follows⟩ := sound.index
    have spec := h.index.refresh_spec read more follows
    rw [← grown, refreshed] at spec
    obtain ⟨pinned, _, ⟨_, complete⟩ | failed⟩ := spec
    · have answers := Harness.plan_answers shared { h with index := index } window
        estimator stopped complete
      obtain ⟨answer, answered, spec⟩ := answers
      rw [planned, Option.some.injEq] at answered
      subst answered
      have changed := spec rfl
      simp only [requestOf, stored, filter_belongs belongs] at changed
      have stands_latest := stands latest (by rw [commits]; exact List.mem_cons_self)
      rw [← sound.pinned, ← pinned] at stands_latest
      obtain ⟨covered, begins, covers⟩ := complete.covers stands_latest
      exact changed covered covers begins
    · contradiction

theorem Harness.step_valid_iff (h : Harness) (event : Event) (sound : h.Sound shared)
    (valid : h.CheckpointsValid shared) :
    (step shared h event).Sound shared ∧
      ((step shared h event).CheckpointsValid shared ↔ h.Spares event) := by
  have stands := (h.checkpointsValid_iff sound).mp valid
  cases event with
  | grow more =>
      have grown := h.grow_sound more sound
      rw [Harness.checkpointsValid_iff _ grown, h.grow_stands_iff more stands]
      exact ⟨grown, Iff.rfl⟩
  | preflight stored turns =>
      obtain ⟨next_sound, next_stands⟩ := h.preflight_keeps stored turns sound stands
      exact ⟨next_sound, iff_of_true
        ((Harness.checkpointsValid_iff _ next_sound).mpr next_stands) trivial⟩

theorem Harness.start_sound (pinned : Nat) (messages : List Message) :
    (Harness.start pinned messages).Sound shared where
  pinned := rfl
  index := ⟨messages, [], (List.append_nil _).symm, Index.new_follows pinned messages⟩
  latest := by simp [Harness.start]

theorem Harness.start_valid (pinned : Nat) (messages : List Message) :
    (Harness.start pinned messages).CheckpointsValid shared :=
  (Harness.checkpointsValid_iff _ (start_sound pinned messages)).mpr (by simp [Stands, start])

end Runs

/-- A run's committed checkpoints stay valid in every state exactly when no growth
begins with a message that joins a group a checkpoint already covers. -/
theorem checkpoints_valid_iff (shared : Shared) (pinned : Nat) (messages : List Message)
    (events : List Event) :
    (∀ reached ∈ Run.states (step shared) (Harness.start pinned messages) events,
      reached.CheckpointsValid shared) ↔
      Run.Meets (step shared) Harness.Spares (Harness.start pinned messages) events :=
  Run.invariant_iff_meets_of_sound Harness.step_valid_iff
    (Harness.start_sound pinned messages) (Harness.start_valid pinned messages)

/-! ## A lone user turn compacted before it is answered -/

namespace LoneTurn

def spoken : Message → String
  | .user text => text
  | .assistant text _ _ => text
  | .toolResult _ output _ => output

def shared : Shared :=
  { modelContextTokens := 1000
    outputTokens := 100
    contextCapTokens := 0
    triggerPercent := 90
    identity := ⟨"run:fleet:lease:branch", "model", "instructions"⟩
    encode := fun messages => some (String.join (messages.map spoken))
    encoding :=
      { sha256 := fun bytes => String.join (bytes.map fun byte => Nat.repr byte.toNat)
        summary := fun summary => .ok summary.goal } }

/-- The pinned request and a turn that fills the window fit only once the turn
is summarized. -/
def turn : Turn :=
  { estimator :=
      { continuation := fun _ groups => if groups.isEmpty then some 100 else some 950
        compaction := fun _ => some 10 }
    stopped := fun _ => false
    execution := ⟨false, .ok ⟨"fix the build", [], [], [], [], []⟩, false, .ok ()⟩ }

def start : Harness := Harness.start 0 [.user "fix the build", .user "go on"]

def events : List Event :=
  [.preflight (.ok none) [turn, turn], .grow [.assistant "done" [] Replay.default]]

def answered : Harness := Run.final (step shared) start events

end LoneTurn

/-- The run of one preflight and one answer leaves a committed checkpoint that the
next preflight finds stale. -/
theorem lone_turn_compacted_is_stale :
    ¬ ∀ reached ∈ Run.states (step LoneTurn.shared) LoneTurn.start LoneTurn.events,
      reached.CheckpointsValid LoneTurn.shared := by
  intro always
  have valid := always LoneTurn.answered (Run.final_mem_states _ _ _)
  have committed : LoneTurn.answered.commits.map Checkpoint.coveredThrough = [2] := by
    decide +kernel
  refine valid.neverStale ?_ (LoneTurn.answered.index.refresh LoneTurn.shared.encode
    LoneTurn.answered.messages).1 ?_ ⟨1000, 100, 90, 1000⟩ LoneTurn.turn.estimator
    LoneTurn.turn.stopped ?_
  · intro none_committed
    rw [none_committed] at committed
    contradiction
  · have refreshed : (LoneTurn.answered.index.refresh LoneTurn.shared.encode
        LoneTurn.answered.messages).2 = .ok () := by decide +kernel
    rw [← refreshed]
  · decide +kernel

end Agentsfleet.Context
