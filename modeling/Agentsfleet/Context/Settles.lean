import Agentsfleet.Context.Rebuilt

/-!
# The loop of a preflight ends

Whatever the estimates are, a plan compacts a group that was not yet covered or settles
the preflight, so the loop takes at most one turn more than there are uncovered groups.
-/

set_option autoImplicit false

namespace Agentsfleet.Context

open Agentsfleet.Library

/-! ## What a plan can fail with -/

structure TokenEstimator.Total (estimator : TokenEstimator) : Prop where
  continuation : ∀ summary groups, (estimator.continuation summary groups).isSome = true
  compaction : ∀ task, (estimator.compaction task).isSome = true

section Failure

variable {encoding : Encoding} {checkpoint : Option Checkpoint} {failure : ContextError}

theorem fitCompaction_failure {window : Window} {estimator : TokenEstimator} {task : Compaction}
    (total : estimator.Total)
    (failed : fitCompaction window estimator task = .error failure) : failure = .window := by
  induction task using fitCompaction.induct window estimator with
  | case1 task empty =>
      rw [fitCompaction, if_pos empty] at failed
      cases failed
      rfl
  | case2 task groups unmeasured =>
      have measured := total.compaction task
      rw [unmeasured] at measured
      cases measured
  | case3 task groups input measured fits =>
      rw [fitCompaction, if_neg groups, measured] at failed
      simp only [fits, if_true] at failed
      cases failed
  | case4 task groups input measured exceeds ih =>
      rw [fitCompaction, if_neg groups, measured] at failed
      simp only [exceeds, if_false] at failed
      exact ih failed

theorem measure_failure {request : Request} {read : Reading} {exhausted : Bool}
    (total : request.estimator.Total)
    (failed : measure request read exhausted = .error failure) : failure = .window := by
  obtain ⟨input, measured⟩ := Option.isSome_iff_exists.mp
    (total.continuation (request.checkpoint.map Checkpoint.summary) read.groups)
  unfold measure at failed
  simp only [measured] at failed
  split at failed
  · have granted := request.window.fitOutput_spec input
    split at failed
    · rename_i refused
      rw [refused] at granted
      cases failed
      exact granted.1
    · cases failed
  · split at failed
    · split at failed
      · rename_i refused
        cases failed
        exact fitCompaction_failure total refused
      · cases failed
    · cases failed

theorem Reading.take_failure {read : Reading} {group : Group}
    (failed : read.take encoding checkpoint group = .error failure) : failure = .stale := by
  unfold Reading.take at failed
  simp only at failed
  split at failed
  · cases failed
    rfl
  · split at failed
    · cases failed
    · split at failed
      · cases failed
        rfl
      · split at failed
        · split at failed
          · rename_i refused
            unfold Checkpoint.verifySource at refused
            split at refused
            · cases refused
              cases failed
              rfl
            · cases refused
          · cases failed
        · cases failed

theorem Reading.takeAll_failure {read : Reading} {groups : List Group}
    (failed : read.takeAll encoding checkpoint groups = .error failure) : failure = .stale := by
  induction groups generalizing read with
  | nil => cases failed
  | cons group groups ih =>
      rw [Reading.takeAll] at failed
      cases taken : read.take encoding checkpoint group with
      | error refused =>
          rw [taken] at failed
          cases failed
          exact Reading.take_failure taken
      | ok next =>
          rw [taken] at failed
          exact ih failed

theorem Reading.append_failure {read : Reading} {page : Page}
    (failed : read.append encoding checkpoint page = .error failure) : failure = .stale := by
  unfold Reading.append at failed
  split at failed
  · cases failed
    rfl
  · cases taken : read.takeAll encoding checkpoint page.groups with
    | error refused =>
        rw [taken] at failed
        cases failed
        exact Reading.takeAll_failure taken
    | ok next =>
        rw [taken] at failed
        simp only at failed
        split at failed
        · cases failed
          rfl
        · cases failed

/-- Left running, with every input measured, planning fails for want of room or because
the source changed. -/
theorem prepareLoop_failure {groups : List Group} {request : Request} {stopped : Nat → Bool}
    {reads : Nat} {read : Reading} {estimateAt : Nat} (total : request.estimator.Total)
    (running : ∀ reads, stopped reads = false)
    (failed : prepareLoop encoding (pages groups) request stopped reads read estimateAt =
      some (.error failure)) : failure = .window ∨ failure = .stale := by
  induction reads generalizing read estimateAt with
  | zero => cases failed
  | succ reads ih =>
      rw [prepareLoop, if_neg (by rw [running]; exact Bool.false_ne_true)] at failed
      simp only [pages] at failed
      split at failed
      · rename_i refused
        cases failed
        exact .inr (Reading.append_failure refused)
      · split at failed
        · exact ih failed
        · split at failed
          · rename_i refused
            cases failed
            exact .inl (measure_failure total refused)
          · cases failed
          · exact ih failed

end Failure

/-! ## Uncovered groups -/

def Harness.standing (shared : Shared) (h : Harness) : Option Checkpoint :=
  h.checkpoint.filter (·.belongsTo shared.identity)

def Harness.uncovered (shared : Shared) (h : Harness) : Nat :=
  match h.standing shared with
  | none => h.index.groups.length
  | some checkpoint =>
      (h.index.groups.map Entry.group).countP (checkpoint.coveredThrough < ·.sequence)

theorem Ordered.lastSequence_lt_of_mem {covered rest : List Group}
    (ordered : Ordered (covered ++ rest)) :
    ∀ group ∈ rest, lastSequence covered < group.sequence := by
  intro group member
  rcases List.eq_nil_or_concat covered with rfl | ⟨front, last, rfl⟩
  · simpa [lastSequence] using ordered.positive group (by simp [member])
  · rw [List.concat_eq_append] at ordered ⊢
    rw [lastSequence_concat]
    exact (List.pairwise_append.mp ordered.ascending).2.2 last (by simp) group member

theorem Ordered.countP_after {covered rest : List Group} (ordered : Ordered (covered ++ rest)) :
    (covered ++ rest).countP (lastSequence covered < ·.sequence) = rest.length := by
  have before : covered.countP (lastSequence covered < ·.sequence) = 0 := by
    refine List.countP_eq_zero.mpr fun group member => ?_
    rw [decide_eq_true_iff, Nat.not_lt]
    exact ordered.front.le_lastSequence group member
  have after : rest.countP (lastSequence covered < ·.sequence) = rest.length := by
    refine List.countP_eq_length.mpr fun group member => ?_
    rw [decide_eq_true_iff]
    exact ordered.lastSequence_lt_of_mem group member
  rw [List.countP_append, before, after, Nat.zero_add]

section Loop

variable {shared : Shared} {h : Harness}

theorem Harness.uncovered_eq (complete : h.index.Complete shared.encode h.messages)
    {covered rest : List Group} (covers : Covered shared.encoding (h.standing shared) covered)
    (split : h.index.groups.map Entry.group = covered ++ rest) :
    h.uncovered shared = rest.length := by
  have ordered := complete.ordered
  rw [split] at ordered
  unfold Harness.uncovered
  cases stands : h.standing shared with
  | none =>
      rw [stands] at covers
      rw [show covered = [] from covers, List.nil_append] at split
      rw [← split, List.length_map]
  | some checkpoint =>
      rw [stands] at covers
      simp only [split, ← covers_lastSequence covers]
      exact ordered.countP_after

theorem Harness.commit_uncovered {window : Window} {turn : Turn} {task : Compaction}
    {checkpoint : Checkpoint} (complete : h.index.Complete shared.encode h.messages)
    (planned : h.plan shared window turn.estimator turn.stopped = some (.ok (.compact task)))
    (executed : execute shared.encoding task turn.execution = .ok checkpoint) :
    (h.committed checkpoint).uncovered shared < h.uncovered shared ∧
      ¬ Changed shared.encoding ((h.committed checkpoint).standing shared)
        (h.index.groups.map Entry.group) := by
  obtain ⟨covered, spared, before, split, nonempty, covers, belongs⟩ :=
    h.commit_covers complete planned executed
  have stands : (h.committed checkpoint).standing shared = some checkpoint :=
    filter_belongs belongs
  have now : Covered shared.encoding ((h.committed checkpoint).standing shared)
      (covered ++ task.groups) := by
    rw [stands]
    exact covers
  have after := Harness.uncovered_eq (h := h.committed checkpoint) complete now
    (split.trans (List.append_assoc _ _ _).symm)
  have earlier := Harness.uncovered_eq complete before split
  have some_group : 0 < task.groups.length := List.length_pos_iff.mpr nonempty
  rw [List.length_append] at earlier
  refine ⟨by omega, ?_⟩
  intro changed
  exact changed _ now ⟨spared, by rw [split, List.append_assoc]⟩

theorem Harness.retained_ok (complete : h.index.Complete shared.encode h.messages)
    (asked : h.pinned < h.messages.length)
    (encodes : ∀ summary, ∃ text, shared.encoding.summary summary = .ok text)
    (summary : Option Summary) {covered groups : List Group}
    (split : h.index.groups.map Entry.group = covered ++ groups) :
    ∃ working, h.retained shared.encoding summary groups = .ok working := by
  obtain ⟨front, entries, whole, -, rfl⟩ := List.map_eq_append_iff.mp split
  have kept : ∀ entry ∈ entries, entry ∈ h.index.groups := by
    intro entry member
    rw [whole]
    exact List.mem_append_right front member
  obtain ⟨sent, retains, -⟩ := Harness.retainGroups_each (fun _ _ => True) (h.current_ok asked)
    trivial false entries
    (fun entry member => find_sequence (fun other inside => (complete.within other inside).1)
      complete.apart complete.numbered (kept entry member))
    (fun entry member => by
      obtain ⟨within, inside⟩ := complete.within entry (kept entry member)
      obtain ⟨sent, replays, places⟩ := h.replay_ok (Nat.le_of_lt within) inside
      exact ⟨sent, replays, places.imp fun _ _ _ => trivial⟩)
  cases summary with
  | none => exact ⟨sent, retains⟩
  | some summary =>
      obtain ⟨text, encoded⟩ := encodes summary
      exact ⟨.user (summaryPreamble ++ text) :: sent, by
        rw [Harness.retained, Summary.context, encoded, retains]⟩

/-! ## The loop -/

structure Turn.Runs (turn : Turn) : Prop where
  total : turn.estimator.Total
  running : ∀ reads, turn.stopped reads = false

def Harness.Succeeds (shared : Shared) (window : Window) : List Turn → Harness → Prop
  | [], _ => True
  | turn :: turns, h =>
      ∀ task, h.plan shared window turn.estimator turn.stopped = some (.ok (.compact task)) →
        ∃ checkpoint, execute shared.encoding task turn.execution = .ok checkpoint ∧
          Succeeds shared window turns (h.committed checkpoint)

def Harness.remaining (shared : Shared) (window : Window) : List Turn → Harness → List Nat
  | [], _ => []
  | turn :: turns, h =>
      h.uncovered shared ::
        match h.plan shared window turn.estimator turn.stopped with
        | some (.ok (.compact task)) =>
            match execute shared.encoding task turn.execution with
            | .ok checkpoint => remaining shared window turns (h.committed checkpoint)
            | .error _ => []
        | _ => []

theorem Harness.plan_failure {window : Window} {turn : Turn} {failure : ContextError}
    (runs : turn.Runs)
    (failed : h.plan shared window turn.estimator turn.stopped = some (.error failure)) :
    failure = .window ∨ failure = .stale :=
  prepareLoop_failure runs.total runs.running failed

/-- A loop that ended: with the context, or for want of room, or on a checkpoint of this
run that covers no first groups of the conversation, with nothing changed. -/
def Harness.Settled (shared : Shared) (h : Harness)
    (ended : Harness × Option (Except ContextError Unit)) : Prop :=
  ended.2 = some (.ok ()) ∨ ended.2 = some (.error .window) ∨
    ended = (h, some (.error .stale)) ∧
      Changed shared.encoding (h.standing shared) (h.index.groups.map Entry.group)

theorem Harness.settle_settled {window : Window}
    (encodes : ∀ summary, ∃ text, shared.encoding.summary summary = .ok text)
    {turns : List Turn} (complete : h.index.Complete shared.encode h.messages)
    (asked : h.pinned < h.messages.length) (enough : h.uncovered shared < turns.length)
    (runs : ∀ turn ∈ turns, turn.Runs) (succeeds : h.Succeeds shared window turns) :
    h.Settled shared (h.settle shared window turns) ∧
      (h.remaining shared window turns).Pairwise (· > ·) ∧
      ∀ left ∈ h.remaining shared window turns, left ≤ h.uncovered shared := by
  induction turns generalizing h with
  | nil => exact absurd enough (Nat.not_lt_zero _)
  | cons turn turns ih =>
      obtain ⟨here, runs⟩ := List.forall_mem_cons.mp runs
      obtain ⟨answer, planned, answers⟩ :=
        h.plan_answers shared window turn.estimator turn.stopped complete
      unfold Harness.settle Harness.remaining
      rw [planned]
      cases answer with
      | error refused =>
          refine ⟨?_, List.pairwise_singleton _ _, by simp⟩
          rcases h.plan_failure here planned with rfl | rfl
          · exact .inr (.inl rfl)
          · exact .inr (.inr ⟨rfl, answers rfl⟩)
      | ok plan =>
          cases plan with
          | ready summary groups outputTokens =>
              obtain ⟨-, covered, -, split⟩ := answers
              obtain ⟨working, retains⟩ := h.retained_ok complete asked encodes summary split
              refine ⟨.inl ?_, List.pairwise_singleton _ _, by simp⟩
              simp only [retains]
          | compact task =>
              obtain ⟨checkpoint, executed, later⟩ := succeeds task planned
              obtain ⟨fewer, verifies⟩ := Harness.commit_uncovered complete planned executed
              rw [List.length_cons] at enough
              obtain ⟨settled, falls, below⟩ := ih (h := h.committed checkpoint) complete asked
                (by omega) runs later
              simp only [executed]
              refine ⟨?_, List.pairwise_cons.mpr ⟨?_, falls⟩, ?_⟩
              · rcases settled with ready | full | ⟨-, changed⟩
                · exact .inl ready
                · exact .inr (.inl full)
                · exact absurd changed verifies
              · exact fun left member => Nat.lt_of_le_of_lt (below left member) fewer
              · refine List.forall_mem_cons.mpr ⟨Nat.le_refl _, ?_⟩
                exact fun left member => Nat.le_trans (below left member) (Nat.le_of_lt fewer)

/-! ## From a run -/

/-- A run's preflight that reaches its loop, which starts from `h`. -/
structure Harness.Enters (shared : Shared) (reached : Harness)
    (stored : Except ContextError (Option Checkpoint)) (h : Harness) (window : Window) : Prop where
  physical : shared.modelContextTokens ≠ 0
  windowed : shared.window = .ok window
  entered : ∃ loaded index, reached.load stored = (loaded, .ok ()) ∧
    loaded.index.refresh shared.encode loaded.messages = (index, .ok ()) ∧
    h = { loaded with index := index }

theorem Harness.Enters.settles {reached : Harness}
    {stored : Except ContextError (Option Checkpoint)} {window : Window}
    (enters : reached.Enters shared stored h window) (turns : List Turn) :
    reached.preflight shared stored turns = h.settle shared window turns := by
  obtain ⟨loaded, index, loads, refreshed, rfl⟩ := enters.entered
  unfold Harness.preflight
  rw [if_neg enters.physical]
  simp only [loads, enters.windowed, refreshed]

/-- What every state of a run keeps: an index of the conversation up to its last refresh,
and the pinned message in it. -/
structure Harness.Indexed (shared : Shared) (h : Harness) : Prop where
  pinned : h.index.pinned = h.pinned
  index : ∃ read more, h.messages = read ++ more ∧ h.index.Follows shared.encode read
  asked : h.pinned < h.messages.length

theorem Harness.settle_frame (window : Window) (turns : List Turn) (h : Harness) :
    (h.settle shared window turns).1.messages = h.messages ∧
      (h.settle shared window turns).1.index = h.index ∧
      (h.settle shared window turns).1.pinned = h.pinned := by
  induction turns generalizing h with
  | nil => exact ⟨rfl, rfl, rfl⟩
  | cons turn turns ih =>
      unfold Harness.settle
      split
      · exact ⟨rfl, rfl, rfl⟩
      · exact ⟨rfl, rfl, rfl⟩
      · split <;> exact ⟨rfl, rfl, rfl⟩
      · split
        · exact ⟨rfl, rfl, rfl⟩
        · exact ih _

theorem Harness.load_frame (h : Harness) (stored : Except ContextError (Option Checkpoint)) :
    (h.load stored).1.messages = h.messages ∧ (h.load stored).1.index = h.index ∧
      (h.load stored).1.pinned = h.pinned := by
  unfold Harness.load
  split
  · exact ⟨rfl, rfl, rfl⟩
  · split <;> exact ⟨rfl, rfl, rfl⟩

theorem Harness.Indexed.congr {other : Harness} (indexed : h.Indexed shared)
    (same : other.messages = h.messages ∧ other.index = h.index ∧ other.pinned = h.pinned) :
    other.Indexed shared := by
  obtain ⟨messages, index, pinned⟩ := same
  refine ⟨?_, ?_, ?_⟩
  · rw [index, pinned]
    exact indexed.pinned
  · rw [messages, index]
    exact indexed.index
  · rw [messages, pinned]
    exact indexed.asked

theorem Harness.Indexed.refresh (indexed : h.Indexed shared) :
    ({ h with index := (h.index.refresh shared.encode h.messages).1 } : Harness).Indexed shared ∧
      ((h.index.refresh shared.encode h.messages).2 = .ok () →
        (h.index.refresh shared.encode h.messages).1.Complete shared.encode h.messages) := by
  obtain ⟨read, more, grown, follows⟩ := indexed.index
  have refreshed := h.index.refresh_spec read more follows
  rw [← grown] at refreshed
  obtain ⟨pinned, partly, ended⟩ := refreshed
  refine ⟨⟨pinned.trans indexed.pinned, ⟨h.messages, [], (List.append_nil _).symm, partly⟩,
    indexed.asked⟩, ?_⟩
  intro done
  rcases ended with ⟨-, complete⟩ | failed
  · exact complete
  · rw [done] at failed
    cases failed

theorem Harness.preflight_indexed (h : Harness)
    (stored : Except ContextError (Option Checkpoint)) (turns : List Turn)
    (indexed : h.Indexed shared) : (h.preflight shared stored turns).1.Indexed shared := by
  unfold Harness.preflight
  split
  · exact indexed.congr ⟨rfl, rfl, rfl⟩
  · have loaded := indexed.congr (h.load_frame stored)
    split
    · rename_i next failure loads
      rw [loads] at loaded
      exact loaded
    · rename_i next loads
      rw [loads] at loaded
      split
      · exact loaded
      · have refreshed := loaded.refresh.1
        split
        · rename_i index failure failed
          rw [failed] at refreshed
          exact refreshed
        · rename_i index done
          rw [done] at refreshed
          exact refreshed.congr (Harness.settle_frame _ _ _)

theorem Harness.step_indexed (h : Harness) (event : Event) (indexed : h.Indexed shared) :
    (step shared h event).Indexed shared := by
  cases event with
  | preflight stored turns => exact h.preflight_indexed stored turns indexed
  | grow more =>
      obtain ⟨read, since, grown, follows⟩ := indexed.index
      have asked := indexed.asked
      refine ⟨indexed.pinned, ⟨read, since ++ more, ?_, follows⟩, ?_⟩
      · simp only [step]
        rw [grown, List.append_assoc]
      · simp only [step]
        rw [List.length_append]
        omega

end Loop

/-- In every state of every run, the loop of a preflight whose compactions succeed ends,
one turn or less for each uncovered group and one more, with fewer of them left at every
turn: ready, out of room, or stale where the checkpoint it began with was. -/
theorem preflight_settles (shared : Shared)
    (encodes : ∀ summary, ∃ text, shared.encoding.summary summary = .ok text) (pinned : Nat)
    (messages : List Message) (asked : pinned < messages.length) (events : List Event) :
    ∀ reached ∈ Run.states (step shared) (Harness.start pinned messages) events,
    ∀ (stored : Except ContextError (Option Checkpoint)) (turns : List Turn) (h : Harness)
      (window : Window), reached.Enters shared stored h window →
      h.uncovered shared < turns.length → (∀ turn ∈ turns, turn.Runs) →
      h.Succeeds shared window turns →
        h.Settled shared (reached.preflight shared stored turns) ∧
          (h.remaining shared window turns).Pairwise (· > ·) := by
  have began : (Harness.start pinned messages).Indexed shared :=
    ⟨rfl, ⟨messages, [], (List.append_nil _).symm, Index.new_follows pinned messages⟩, asked⟩
  intro reached member stored turns h window enters enough runs succeeds
  have indexed : reached.Indexed shared :=
    Run.invariant_of_step _ Harness.step_indexed began events reached member
  obtain ⟨loaded, index, loads, refreshed, rfl⟩ := enters.entered
  have next : loaded.Indexed shared := by
    have frame := reached.load_frame stored
    rw [loads] at frame
    exact indexed.congr frame
  have complete := next.refresh.2
  rw [refreshed] at complete
  have settled := Harness.settle_settled (h := { loaded with index := index }) encodes
    (complete rfl) next.asked enough runs succeeds
  rw [enters.settles]
  exact ⟨settled.1, settled.2.1⟩

namespace LoneTurn

def entered : Harness :=
  { start with loaded := true, index := ⟨0, [⟨⟨2, "go on"⟩, 1, 2⟩]⟩ }

def window : Window := ⟨1000, 100, 90, 1000⟩

def summarized : Checkpoint :=
  ⟨1, shared.identity, 1, 2, digestGroups shared.encoding "" [⟨2, "go on"⟩],
    ⟨"fix the build", [], [], [], [], []⟩⟩

def elsewhere : Checkpoint :=
  ⟨1, shared.identity, 1, 7, "digest", ⟨"fix the build", [], [], [], [], []⟩⟩

def misled : Harness := { entered with checkpoint := some elsewhere, replayFrom := 2 }

theorem turn_runs : turn.Runs where
  total :=
    { continuation := by
        intro summary groups
        simp only [turn]
        split <;> rfl
      compaction := fun _ => rfl }
  running := fun _ => rfl

end LoneTurn

/-- The lone turn is compacted, and the rest is ready. -/
theorem preflight_settles_lone :
    LoneTurn.entered.Settled LoneTurn.shared (LoneTurn.start.preflight LoneTurn.shared (.ok none)
        [LoneTurn.turn, LoneTurn.turn]) ∧
      (LoneTurn.entered.remaining LoneTurn.shared LoneTurn.window
        [LoneTurn.turn, LoneTurn.turn]).Pairwise (· > ·) := by
  refine preflight_settles LoneTurn.shared (fun summary => ⟨_, rfl⟩) 0 _ (by decide) []
    LoneTurn.start (Run.start_mem_states _ _ _) (.ok none) [LoneTurn.turn, LoneTurn.turn]
    LoneTurn.entered LoneTurn.window ⟨by decide, rfl, LoneTurn.start.load (.ok none) |>.1, _, rfl,
      by decide +kernel, rfl⟩ (by decide) ?_ ?_
  · intro turn member
    have same : turn = LoneTurn.turn := by simpa using member
    exact same ▸ LoneTurn.turn_runs
  · intro task planned
    have first : LoneTurn.entered.plan LoneTurn.shared LoneTurn.window LoneTurn.turn.estimator
        LoneTurn.turn.stopped = some (.ok (.compact
          ⟨LoneTurn.shared.identity, 0, "", none, [⟨2, "go on"⟩], 100⟩)) := by decide +kernel
    rw [first] at planned
    cases planned
    refine ⟨LoneTurn.summarized, by decide +kernel, ?_⟩
    intro task planned
    have second : (LoneTurn.entered.committed LoneTurn.summarized).plan LoneTurn.shared
        LoneTurn.window LoneTurn.turn.estimator LoneTurn.turn.stopped =
          some (.ok (.ready (some LoneTurn.summarized.summary) [] 100)) := by decide +kernel
    rw [second] at planned
    cases planned

/-- A stored checkpoint of this run that covers other groups ends the loop stale. -/
theorem stored_elsewhere_is_stale :
    LoneTurn.start.Enters LoneTurn.shared (.ok (some LoneTurn.elsewhere)) LoneTurn.misled
        LoneTurn.window ∧
      LoneTurn.misled.uncovered LoneTurn.shared < [LoneTurn.turn].length ∧
      LoneTurn.turn.Runs ∧
      LoneTurn.misled.Succeeds LoneTurn.shared LoneTurn.window [LoneTurn.turn] ∧
      (LoneTurn.start.preflight LoneTurn.shared (.ok (some LoneTurn.elsewhere))
        [LoneTurn.turn]).2 = some (.error .stale) := by
  refine ⟨⟨by decide, rfl, (LoneTurn.start.load (.ok (some LoneTurn.elsewhere))).1, _, rfl,
    by decide +kernel, rfl⟩, by decide, LoneTurn.turn_runs, ?_, by decide +kernel⟩
  intro task planned
  have refused : LoneTurn.misled.plan LoneTurn.shared LoneTurn.window LoneTurn.turn.estimator
      LoneTurn.turn.stopped = some (.error .stale) := by decide +kernel
  rw [refused] at planned
  cases planned

end Agentsfleet.Context
