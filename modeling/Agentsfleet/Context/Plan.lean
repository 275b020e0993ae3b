import Agentsfleet.Context.Checkpoint

/-!
# Planning the next model input

`prepare` reads the source page by page, skips the groups a checkpoint covers
while it verifies their digest, and answers either a context that fits or one
compaction to run first.  The estimator is any function of what it measures.
-/

set_option autoImplicit false

namespace Agentsfleet.Context

def historyPageSize : Nat := 64
def retainRecentGroups : Nat := 2

/-- Bounded source data after a sequence watermark. -/
structure Page where
  groups : List Group
  hasMore : Bool

inductive Plan where
  | ready (summary : Option Summary) (groups : List Group) (outputTokens : Nat)
  | compact (task : Compaction)
deriving DecidableEq

/-- `HistorySource::page`: complete groups strictly after a sequence, up to a limit. -/
abbrev HistorySource := Nat → Nat → Except ContextError Page

/-- Measures of a complete provider input; `none` where the host cannot encode it. -/
structure TokenEstimator where
  continuation : Option Summary → List Group → Option UInt64
  compaction : Compaction → Option UInt64

/-! ## Reading the source -/

structure Reading where
  sequence : Nat
  digest : String
  verified : Bool
  groups : List Group

namespace Reading

def new (checkpoint : Option Checkpoint) : Reading := ⟨0, "", checkpoint.isNone, []⟩

def take (encoding : Encoding) (checkpoint : Option Checkpoint) (read : Reading) (group : Group) :
    Except ContextError Reading :=
  if group.sequence ≤ read.sequence then .error .stale
  else
    let read := { read with sequence := group.sequence }
    if read.verified then .ok { read with groups := read.groups ++ [group] }
    else
      let read := { read with digest := digestGroups encoding read.digest [group] }
      match checkpoint with
      | none => .error .stale
      | some checkpoint =>
          if checkpoint.coveredThrough ≤ read.sequence then
            match checkpoint.verifySource read.sequence read.digest with
            | .error failure => .error failure
            | .ok () => .ok { read with verified := true }
          else .ok read

def takeAll (encoding : Encoding) (checkpoint : Option Checkpoint) :
    Reading → List Group → Except ContextError Reading
  | read, [] => .ok read
  | read, group :: rest =>
      match read.take encoding checkpoint group with
      | .error failure => .error failure
      | .ok read => takeAll encoding checkpoint read rest

def append (encoding : Encoding) (checkpoint : Option Checkpoint) (read : Reading) (page : Page) :
    Except ContextError Reading :=
  if historyPageSize < page.groups.length ∨ (page.hasMore ∧ page.groups = []) then .error .stale
  else
    match read.takeAll encoding checkpoint page.groups with
    | .error failure => .error failure
    | .ok read => if !page.hasMore && !read.verified then .error .stale else .ok read

end Reading

/-! ## Planning -/

/-- The part of a task that is compacted: halved until its request fits. -/
def fitCompaction (window : Window) (estimator : TokenEstimator) (task : Compaction) :
    Except ContextError Plan :=
  if task.groups.length = 0 then .error .window
  else
    match estimator.compaction task with
    | none => .error .boundary
    | some input =>
        if saturatingAdd input.toNat task.outputTokens ≤ window.safeTokens then .ok (.compact task)
        else
          fitCompaction window estimator
            { task with groups := task.groups.take (task.groups.length / 2) }
termination_by task.groups.length
decreasing_by simp only [List.length_take]; omega

def keepCount (exhausted : Bool) (groups : List Group) : Nat :=
  if exhausted then min retainRecentGroups (groups.length - 1) else 0

def compact (groups : List Group) (checkpoint : Option Checkpoint) (identity : Identity)
    (expectedGeneration : Nat) (window : Window) (estimator : TokenEstimator) (exhausted : Bool) :
    Except ContextError Plan :=
  let keep := keepCount exhausted groups
  let groups := groups.take (groups.length - keep)
  fitCompaction window estimator
    { identity := identity
      expectedGeneration := expectedGeneration
      priorDigest := (checkpoint.map Checkpoint.sourceDigest).getD ""
      priorSummary := checkpoint.map Checkpoint.summary
      groups := groups
      outputTokens := min summaryOutputTokens window.outputTokens.toNat }

/-- What one `prepare` is asked with: who asks, the stored checkpoint that
belongs to them, the generation last stored, the window, and what is measured. -/
structure Request where
  identity : Identity
  checkpoint : Option Checkpoint
  generation : Nat
  window : Window
  estimator : TokenEstimator

def measure (request : Request) (read : Reading) (exhausted : Bool) :
    Except ContextError (Option Plan) :=
  let summary := request.checkpoint.map Checkpoint.summary
  match request.estimator.continuation summary read.groups with
  | none => .error .boundary
  | some input =>
      if exhausted && (!request.window.needsCompaction input ||
          (read.groups.isEmpty && decide (input.toNat < request.window.triggerTokens))) then
        match request.window.fitOutput input with
        | .error failure => .error failure
        | .ok output => .ok (some (.ready summary read.groups output))
      else if request.window.needsCompaction input || exhausted then
        match compact read.groups request.checkpoint request.identity request.generation
            request.window request.estimator exhausted with
        | .error failure => .error failure
        | .ok plan => .ok (some plan)
      else .ok none

/-- The loop of `prepare`, for at most `reads` reads; `none` while more are due. -/
def prepareLoop (encoding : Encoding) (source : HistorySource) (request : Request)
    (stopped : Nat → Bool) : Nat → Reading → Nat → Option (Except ContextError Plan)
  | 0, _, _ => none
  | reads + 1, read, estimateAt =>
      if stopped reads then some (.error .cancelled)
      else
        match source read.sequence historyPageSize with
        | .error failure => some (.error failure)
        | .ok page =>
            let exhausted := !page.hasMore
            match read.append encoding request.checkpoint page with
            | .error failure => some (.error failure)
            | .ok read =>
                if !read.verified || (!exhausted && decide (read.groups.length < estimateAt)) then
                  prepareLoop encoding source request stopped reads read estimateAt
                else
                  let estimateAt :=
                    saturatingMul (max read.groups.length historyPageSize) 2
                  match measure request read exhausted with
                  | .error failure => some (.error failure)
                  | .ok (some plan) => some (.ok plan)
                  | .ok none =>
                      prepareLoop encoding source request stopped reads read estimateAt

/-- Plan without sending a model request or modifying the history. -/
def prepare (encoding : Encoding) (source : HistorySource) (estimator : TokenEstimator)
    (identity : Identity) (stored : Option Checkpoint) (window : Window)
    (stopped : Nat → Bool) (reads : Nat) : Option (Except ContextError Plan) :=
  let generation := (stored.map Checkpoint.generation).getD 0
  let checkpoint := stored.filter (·.belongsTo identity)
  prepareLoop encoding source ⟨identity, checkpoint, generation, window, estimator⟩ stopped reads
    (Reading.new checkpoint) 0

/-! ## A source held in memory -/

/-- `Pages::page` over the groups of a conversation. -/
def pages (groups : List Group) : HistorySource := fun sequence limit =>
  let first := (groups.takeWhile (·.sequence ≤ sequence)).length
  let page := (groups.drop first).take limit
  .ok ⟨page, decide (first + page.length < groups.length)⟩

/-! ## What a reading has verified -/

structure Ordered (groups : List Group) : Prop where
  positive : ∀ group ∈ groups, 0 < group.sequence
  ascending : groups.Pairwise fun earlier later => earlier.sequence < later.sequence

def Covered (encoding : Encoding) : Option Checkpoint → List Group → Prop
  | none, covered => covered = []
  | some checkpoint, covered => checkpoint.Covers encoding covered

def Changed (encoding : Encoding) (checkpoint : Option Checkpoint) (groups : List Group) : Prop :=
  ∀ covered, Covered encoding checkpoint covered → ¬ covered <+: groups

def lastSequence (groups : List Group) : Nat := (groups.getLast?.map Group.sequence).getD 0

section Reading

variable (encoding : Encoding) (checkpoint : Option Checkpoint)

/-- A reading after `seen`: past the covered groups once they are verified, short
of their watermark before. -/
structure Reading.Follows (read : Reading) (seen : List Group) : Prop where
  sequence : read.sequence = lastSequence seen
  verified : read.verified = true →
    ∃ covered, Covered encoding checkpoint covered ∧ seen = covered ++ read.groups
  unverified : read.verified = false →
    read.groups = [] ∧ read.digest = digestGroups encoding "" seen ∧
      ∃ stored, checkpoint = some stored ∧ ∀ group ∈ seen, group.sequence < stored.coveredThrough

variable {encoding checkpoint}

theorem lastSequence_concat (groups : List Group) (group : Group) :
    lastSequence (groups ++ [group]) = group.sequence := by
  simp [lastSequence]

theorem Ordered.lastSequence_lt {seen rest : List Group} {group : Group}
    (ordered : Ordered (seen ++ group :: rest)) : lastSequence seen < group.sequence := by
  rcases List.eq_nil_or_concat seen with rfl | ⟨front, last, rfl⟩
  · simpa [lastSequence] using ordered.positive group (by simp)
  · have ascending := ordered.ascending
    rw [List.pairwise_append] at ascending
    simpa [lastSequence] using ascending.2.2 last (by simp) group (by simp)

theorem Ordered.le_lastSequence {seen : List Group} (ordered : Ordered seen) :
    ∀ group ∈ seen, group.sequence ≤ lastSequence seen := by
  intro group member
  rcases List.eq_nil_or_concat seen with rfl | ⟨front, last, rfl⟩
  · simp at member
  · have ascending := ordered.ascending
    simp only [List.concat_eq_append, List.pairwise_append] at ascending
    simp only [List.concat_eq_append, List.mem_append, List.mem_singleton] at member
    rw [List.concat_eq_append, lastSequence_concat]
    rcases member with front | rfl
    · exact Nat.le_of_lt (ascending.2.2 group front last (by simp))
    · exact Nat.le_refl _

theorem Ordered.front {front back : List Group} (ordered : Ordered (front ++ back)) :
    Ordered front where
  positive := fun group member => ordered.positive group (by simp [member])
  ascending := (List.pairwise_append.mp ordered.ascending).1

theorem covers_lastSequence {stored : Checkpoint} {covered : List Group}
    (covers : stored.Covers encoding covered) : lastSequence covered = stored.coveredThrough := by
  simp [lastSequence, covers.watermark]

/-- The covered prefix of an ordered source ends where the watermark says, so
there is at most one. -/
theorem Ordered.covered_front {stored : Checkpoint} {covered seen rest : List Group}
    {group : Group} (ordered : Ordered (seen ++ group :: rest))
    (covers : stored.Covers encoding covered) (begins : covered <+: seen ++ group :: rest)
    (before : ∀ earlier ∈ seen, earlier.sequence < stored.coveredThrough)
    (reached : stored.coveredThrough ≤ group.sequence) : covered = seen ++ [group] := by
  have ends := covers_lastSequence covers
  obtain ⟨tail, split⟩ := begins
  rcases List.eq_nil_or_concat covered with rfl | ⟨front, last, rfl⟩
  · simpa using covers.watermark
  · rw [List.concat_eq_append] at split ends ⊢
    rw [lastSequence_concat] at ends
    have aligned : front.length = seen.length := by
      rcases Nat.lt_trichotomy front.length seen.length with short | same | long
      · have inside : last ∈ seen := by
          have at_front : (seen ++ group :: rest)[front.length]? = some last := by
            rw [← split]; simp
          rw [List.getElem?_append_left short] at at_front
          exact List.mem_of_getElem? at_front
        have := before last inside
        omega
      · exact same
      · have early : group ∈ front := by
          have at_seen : (front ++ [last] ++ tail)[seen.length]? = some group := by
            rw [split]; simp
          rw [List.append_assoc, List.getElem?_append_left long] at at_seen
          exact List.mem_of_getElem? at_seen
        have ascending := ordered.ascending
        rw [← split, List.append_assoc, List.pairwise_append] at ascending
        have := ascending.2.2 group early last (by simp)
        omega
    rw [List.append_assoc] at split
    obtain ⟨rfl, same⟩ := List.append_inj split aligned
    simp only [List.singleton_append, List.cons.injEq] at same
    rw [same.1]

theorem Reading.new_follows : (Reading.new checkpoint).Follows encoding checkpoint [] where
  sequence := rfl
  verified := by
    intro fresh
    cases checkpoint with
    | none => exact ⟨[], rfl, rfl⟩
    | some stored => simp [Reading.new] at fresh
  unverified := by
    intro held
    cases checkpoint with
    | none => simp [Reading.new] at held
    | some stored => exact ⟨rfl, rfl, stored, rfl, by simp⟩

theorem Reading.Follows.take {read : Reading} {seen : List Group} (group : Group)
    (rest : List Group) (follows : read.Follows encoding checkpoint seen)
    (ordered : Ordered (seen ++ group :: rest)) :
    match read.take encoding checkpoint group with
    | .ok next => next.Follows encoding checkpoint (seen ++ [group])
    | .error failure => failure = .stale ∧ Changed encoding checkpoint (seen ++ group :: rest) := by
  have later := ordered.lastSequence_lt
  have fresh : ¬ group.sequence ≤ read.sequence := by rw [follows.sequence]; omega
  obtain ⟨sequence, digest, verified, groups⟩ := read
  cases verified with
  | true =>
      obtain ⟨covered, covers, split⟩ := follows.verified rfl
      simp only at split fresh
      simp only [Reading.take, if_neg fresh, if_true]
      exact
        { sequence := (lastSequence_concat seen group).symm
          verified := fun _ => ⟨covered, covers, by simp [split]⟩
          unverified := fun contradictory => absurd contradictory (by simp) }
  | false =>
      obtain ⟨rfl, read_digest, stored, rfl, before⟩ := follows.unverified rfl
      simp only at fresh read_digest before
      have chained : digestGroups encoding digest [group] =
          digestGroups encoding "" (seen ++ [group]) := by
        rw [digestGroups_append, ← read_digest]
      simp only [Reading.take, if_neg fresh, Bool.false_eq_true, if_false]
      by_cases reached : stored.coveredThrough ≤ group.sequence
      · rw [if_pos reached, chained]
        unfold Checkpoint.verifySource
        by_cases mismatch : group.sequence ≠ stored.coveredThrough ∨
            digestGroups encoding "" (seen ++ [group]) ≠ stored.sourceDigest
        · rw [if_pos mismatch]
          refine ⟨rfl, ?_⟩
          intro covered covers begins
          have only := ordered.covered_front covers begins before reached
          subst only
          rcases mismatch with sequence | digest
          · exact sequence (by simpa [lastSequence] using covers_lastSequence covers)
          · exact digest covers.digest
        · rw [if_neg mismatch]
          rw [not_or, not_not, not_not] at mismatch
          exact
            { sequence := (lastSequence_concat seen group).symm
              verified := fun _ =>
                ⟨seen ++ [group], ⟨by simp [mismatch.1], mismatch.2⟩, by simp⟩
              unverified := fun contradictory => absurd contradictory (by simp) }
      · rw [if_neg reached]
        exact
          { sequence := (lastSequence_concat seen group).symm
            verified := fun contradictory => absurd contradictory (by simp)
            unverified := fun _ => ⟨rfl, chained, stored, rfl, by
              intro earlier member
              rcases List.mem_append.mp member with front | last
              · exact before earlier front
              · rw [List.mem_singleton.mp last]; omega⟩ }

theorem Reading.Follows.takeAll {read : Reading} {seen : List Group} (page rest : List Group)
    (follows : read.Follows encoding checkpoint seen)
    (ordered : Ordered (seen ++ (page ++ rest))) :
    match read.takeAll encoding checkpoint page with
    | .ok next => next.Follows encoding checkpoint (seen ++ page)
    | .error failure =>
        failure = .stale ∧ Changed encoding checkpoint (seen ++ (page ++ rest)) := by
  induction page generalizing read seen with
  | nil => simpa [Reading.takeAll] using follows
  | cons group page ih =>
      have first := follows.take group (page ++ rest) ordered
      unfold Reading.takeAll
      cases taken : read.take encoding checkpoint group with
      | error failure =>
          rw [taken] at first
          exact first
      | ok next =>
          rw [taken] at first
          have others := ih first (by simpa using ordered)
          simpa using others

theorem changed_of_short {stored : Checkpoint} {groups : List Group}
    (short : ∀ group ∈ groups, group.sequence < stored.coveredThrough) :
    Changed encoding (some stored) groups := by
  intro covered covers begins
  rcases List.eq_nil_or_concat covered with rfl | ⟨front, last, rfl⟩
  · simpa using covers.watermark
  · have ends := covers_lastSequence covers
    rw [List.concat_eq_append, lastSequence_concat] at ends
    have := short last (begins.subset (by simp))
    omega

theorem pages_eq {seen unread : List Group} (ordered : Ordered (seen ++ unread)) (limit : Nat) :
    pages (seen ++ unread) (lastSequence seen) limit =
      .ok ⟨unread.take limit, decide (limit < unread.length)⟩ := by
  have read : (seen ++ unread).takeWhile (·.sequence ≤ lastSequence seen) = seen := by
    rw [List.takeWhile_append_of_pos]
    · cases unread with
      | nil => simp
      | cons group rest =>
          have later := ordered.lastSequence_lt
          simp only [List.takeWhile_cons]
          rw [if_neg (by simpa using later), List.append_nil]
    · intro group member
      simpa using ordered.front.le_lastSequence group member
  simp only [pages, read, List.drop_left, List.length_append, List.length_take]
  congr 3
  simp only [eq_iff_iff]
  omega

theorem Reading.Follows.append {read : Reading} {seen unread : List Group}
    (follows : read.Follows encoding checkpoint seen) (ordered : Ordered (seen ++ unread)) :
    match read.append encoding checkpoint
        ⟨unread.take historyPageSize, decide (historyPageSize < unread.length)⟩ with
    | .ok next =>
        next.Follows encoding checkpoint (seen ++ unread.take historyPageSize) ∧
          (unread.length ≤ historyPageSize → next.verified = true)
    | .error failure => failure = .stale ∧ Changed encoding checkpoint (seen ++ unread) := by
  have bounded : ¬ (historyPageSize < (unread.take historyPageSize).length ∨
      decide (historyPageSize < unread.length) = true ∧ unread.take historyPageSize = []) := by
    simp only [historyPageSize, List.length_take, List.take_eq_nil_iff]
    rintro (long | ⟨more, zero | rfl⟩)
    · omega
    · omega
    · simp at more
  have whole := List.take_append_drop historyPageSize unread
  have read_page := follows.takeAll (unread.take historyPageSize) (unread.drop historyPageSize)
    (by rwa [whole])
  rw [whole] at read_page
  simp only [Reading.append, if_neg bounded]
  cases taken : read.takeAll encoding checkpoint (unread.take historyPageSize) with
  | error failure =>
      rw [taken] at read_page
      exact read_page
  | ok next =>
      rw [taken] at read_page
      simp only
      by_cases unsettled : unread.length ≤ historyPageSize ∧ next.verified = false
      · have short : unread.take historyPageSize = unread := List.take_of_length_le unsettled.1
        obtain ⟨_, _, stored, rfl, before⟩ := read_page.unverified unsettled.2
        rw [short] at before
        rw [if_pos (by simp [unsettled.1, unsettled.2])]
        exact ⟨rfl, changed_of_short before⟩
      · rw [if_neg (by simpa using unsettled)]
        refine ⟨read_page, ?_⟩
        intro exhausted
        cases verified : next.verified with
        | true => rfl
        | false => exact absurd ⟨exhausted, verified⟩ unsettled

end Reading

/-! ## What a plan is made of -/

theorem fitCompaction_spec (window : Window) (estimator : TokenEstimator) (task : Compaction) :
    match fitCompaction window estimator task with
    | .ok (.compact fitted) =>
        ∃ groups, groups ≠ [] ∧ groups <+: task.groups ∧ fitted = { task with groups := groups }
    | .ok (.ready ..) => False
    | .error failure => failure ≠ .stale := by
  induction task using fitCompaction.induct window estimator with
  | case1 task empty =>
      rw [fitCompaction, if_pos empty]
      simp
  | case2 task groups failed =>
      rw [fitCompaction, if_neg groups, failed]
      simp
  | case3 task groups input measured fits =>
      rw [fitCompaction, if_neg groups, measured]
      simp only [fits, if_true]
      exact ⟨task.groups, fun empty => groups (by simp [empty]), List.prefix_refl _, rfl⟩
  | case4 task groups input measured exceeds ih =>
      rw [fitCompaction, if_neg groups, measured]
      simp only [exceeds, if_false]
      cases halved : fitCompaction window estimator
          { task with groups := task.groups.take (task.groups.length / 2) } with
      | error failure => rwa [halved] at ih
      | ok plan =>
          rw [halved] at ih
          cases plan with
          | ready => exact ih
          | compact fitted =>
              obtain ⟨part, nonempty, begins, same⟩ := ih
              exact ⟨part, nonempty, begins.trans (List.take_prefix _ _), same⟩

section Plan

variable (encoding : Encoding) (request : Request)

/-- What an answer says about the source: the covered groups are skipped, a
ready context carries all the others, a compaction the first of them, and a
stale answer means the covered groups are no longer there. -/
def Answers (groups : List Group) : Except ContextError Plan → Prop
  | .ok (.ready summary retained _) =>
      summary = request.checkpoint.map Checkpoint.summary ∧
        ∃ covered, Covered encoding request.checkpoint covered ∧ groups = covered ++ retained
  | .ok (.compact task) =>
      task.identity = request.identity ∧ task.expectedGeneration = request.generation ∧
        task.priorDigest = (request.checkpoint.map Checkpoint.sourceDigest).getD "" ∧
        task.priorSummary = request.checkpoint.map Checkpoint.summary ∧ task.groups ≠ [] ∧
        ∃ covered spared, Covered encoding request.checkpoint covered ∧
          groups = covered ++ (task.groups ++ spared) ∧
          (spared = [] → task.groups.length = 1)
  | .error failure => failure = .stale → Changed encoding request.checkpoint groups

variable {encoding request}

theorem compact_spec {read : Reading} {seen unread : List Group} {exhausted : Bool}
    (follows : read.Follows encoding request.checkpoint seen) (verified : read.verified = true)
    (more : exhausted = true ↔ unread = []) :
    match compact read.groups request.checkpoint request.identity request.generation
        request.window request.estimator exhausted with
    | .ok plan => Answers encoding request (seen ++ unread) (.ok plan)
    | .error failure => failure ≠ .stale := by
  have fitted := fitCompaction_spec request.window request.estimator
    { identity := request.identity
      expectedGeneration := request.generation
      priorDigest := (request.checkpoint.map Checkpoint.sourceDigest).getD ""
      priorSummary := request.checkpoint.map Checkpoint.summary
      groups := read.groups.take (read.groups.length - keepCount exhausted read.groups)
      outputTokens := min summaryOutputTokens request.window.outputTokens.toNat }
  unfold compact
  split
  · rename_i plan planned
    rw [planned] at fitted
    cases plan with
    | ready => exact fitted.elim
    | compact task =>
        obtain ⟨groups, nonempty, ⟨dropped, split⟩, rfl⟩ := fitted
        obtain ⟨covered, covers, before⟩ := follows.verified verified
        have whole := List.take_append_drop
          (read.groups.length - keepCount exhausted read.groups) read.groups
        refine ⟨rfl, rfl, rfl, rfl, nonempty, covered,
          dropped ++ read.groups.drop (read.groups.length - keepCount exhausted read.groups) ++
            unread, covers, ?_, ?_⟩
        · calc seen ++ unread
              = covered ++ read.groups ++ unread := by rw [before]
            _ = covered ++ (groups ++ dropped ++ read.groups.drop _) ++ unread := by
                rw [split, whole]
            _ = _ := by simp only [List.append_assoc]
        · intro nothing
          simp only [List.append_eq_nil_iff, List.drop_eq_nil_iff] at nothing
          obtain ⟨⟨rfl, kept⟩, rfl⟩ := nothing
          rw [List.append_nil] at split
          have some_group : 0 < groups.length := List.length_pos_iff.mpr nonempty
          have size := congrArg List.length split
          simp only [List.length_take] at size
          have last := more.mpr rfl
          simp only [keepCount, last, if_true, retainRecentGroups] at size kept
          show groups.length = 1
          omega
  · rename_i failure planned
    rw [planned] at fitted
    exact fitted

theorem measure_spec {read : Reading} {seen unread : List Group} {exhausted : Bool}
    (follows : read.Follows encoding request.checkpoint seen) (verified : read.verified = true)
    (more : exhausted = true ↔ unread = []) :
    match measure request read exhausted with
    | .ok (some plan) => Answers encoding request (seen ++ unread) (.ok plan)
    | .ok none => exhausted = false
    | .error failure => failure ≠ .stale := by
  have compacted := compact_spec follows verified more
  unfold measure
  cases measured : request.estimator.continuation (request.checkpoint.map Checkpoint.summary)
      read.groups with
  | none => simp [measured]
  | some input =>
      simp only [measured]
      by_cases fits : (exhausted && (!request.window.needsCompaction input ||
          (read.groups.isEmpty && decide (input.toNat < request.window.triggerTokens)))) = true
      · rw [if_pos fits]
        have last : unread = [] := by
          rw [Bool.and_eq_true] at fits
          exact more.mp fits.1
        cases granted : request.window.fitOutput input with
        | error failure =>
            have refused := request.window.fitOutput_spec input
            rw [granted] at refused
            simp [refused.1]
        | ok output =>
            obtain ⟨covered, covers, split⟩ := follows.verified verified
            exact ⟨rfl, covered, covers, by rw [last, List.append_nil, split]⟩
      · rw [if_neg fits]
        by_cases full : (request.window.needsCompaction input || exhausted) = true
        · rw [if_pos full]
          cases planned : compact read.groups request.checkpoint request.identity
              request.generation request.window request.estimator exhausted with
          | error failure => rwa [planned] at compacted
          | ok plan => rwa [planned] at compacted
        · rw [if_neg full]
          simp only [Bool.or_eq_true, not_or, Bool.not_eq_true] at full
          exact full.2

/-- Every run of the loop over a source held in memory ends, with an answer
about that source: the induction is on the reads allowed, more than are unread. -/
theorem prepareLoop_spec (stopped : Nat → Bool) {reads : Nat} {read : Reading}
    {seen : List Group} (unread : List Group) (estimateAt : Nat)
    (follows : read.Follows encoding request.checkpoint seen)
    (ordered : Ordered (seen ++ unread)) (enough : unread.length < reads) :
    ∃ answer, prepareLoop encoding (pages (seen ++ unread)) request stopped reads read estimateAt =
      some answer ∧ Answers encoding request (seen ++ unread) answer := by
  induction reads generalizing read seen unread estimateAt with
  | zero => exact absurd enough (Nat.not_lt_zero _)
  | succ reads ih =>
      unfold prepareLoop
      by_cases halted : stopped reads = true
      · rw [if_pos halted]
        exact ⟨_, rfl, by simp [Answers]⟩
      · rw [if_neg halted, follows.sequence, pages_eq ordered]
        have appended := follows.append ordered
        simp only
        cases read_page : read.append encoding request.checkpoint
            ⟨unread.take historyPageSize, decide (historyPageSize < unread.length)⟩ with
        | error failure =>
            rw [read_page] at appended
            exact ⟨_, rfl, fun _ => appended.2⟩
        | ok next =>
            rw [read_page] at appended
            obtain ⟨reached, settled⟩ := appended
            have whole := List.take_append_drop historyPageSize unread
            have again : ∀ estimateAt, ¬ unread.length ≤ historyPageSize →
                ∃ answer, prepareLoop encoding (pages (seen ++ unread)) request stopped reads next
                  estimateAt = some answer ∧ Answers encoding request (seen ++ unread) answer := by
              intro estimateAt long
              have rest := ih (unread.drop historyPageSize) estimateAt reached
                (by rwa [List.append_assoc, whole])
                (by simp only [List.length_drop, historyPageSize] at *; omega)
              rwa [List.append_assoc, whole] at rest
            simp only
            by_cases reading : (!next.verified ||
                (!!decide (historyPageSize < unread.length) &&
                  decide (next.groups.length < estimateAt))) = true
            · rw [if_pos reading]
              refine again estimateAt ?_
              intro short
              simp [settled short, Nat.not_lt.mpr short] at reading
            · rw [if_neg reading]
              have verified : next.verified = true := by
                cases verified : next.verified with
                | true => rfl
                | false => simp [verified] at reading
              have last : (!decide (historyPageSize < unread.length)) = true ↔
                  unread.drop historyPageSize = [] := by
                simp [List.drop_eq_nil_iff]
              have measured := measure_spec reached verified last
              rw [List.append_assoc, whole] at measured
              cases planned : measure request next (!decide (historyPageSize < unread.length)) with
              | error failure =>
                  rw [planned] at measured
                  exact ⟨_, rfl, fun stale => absurd stale measured⟩
              | ok plan =>
                  rw [planned] at measured
                  cases plan with
                  | some plan => exact ⟨_, rfl, measured⟩
                  | none =>
                      refine again _ ?_
                      intro short
                      simp [Nat.not_lt.mpr short] at measured

end Plan

def requestOf (estimator : TokenEstimator) (identity : Identity) (stored : Option Checkpoint)
    (window : Window) : Request :=
  ⟨identity, stored.filter (·.belongsTo identity),
    (stored.map Checkpoint.generation).getD 0, window, estimator⟩

theorem prepare_spec (encoding : Encoding) {groups : List Group} (ordered : Ordered groups)
    (estimator : TokenEstimator) (identity : Identity) (stored : Option Checkpoint)
    (window : Window) (stopped : Nat → Bool) {reads : Nat} (enough : groups.length < reads) :
    ∃ answer, prepare encoding (pages groups) estimator identity stored window stopped reads =
        some answer ∧
      Answers encoding (requestOf estimator identity stored window) groups answer :=
  prepareLoop_spec stopped groups 0
    (Reading.new_follows : (Reading.new (stored.filter (·.belongsTo identity))).Follows encoding
      (requestOf estimator identity stored window).checkpoint []) ordered enough

end Agentsfleet.Context
