import Agentsfleet.Context.Plan

/-!
# What a plan fits in

Whatever the source holds and the estimator measures, a plan leaves room in the
window's safe tokens for the output it grants.  A sum that saturates is above
every safe count, so it decides what the exact sum would.
-/

set_option autoImplicit false

namespace Agentsfleet.Context

/-! ## Windows -/

inductive Window.Built : Window → Prop
  | new {tokens output : UInt32} {window : Window} (made : Window.new tokens output = .ok window) :
      Built window
  | triggerPercent {window : Window} (built : Built window) (percent : Nat) :
      Built (window.withTriggerPercent percent)
  | operatingTokens {window : Window} (built : Built window) (tokens : UInt32) :
      Built (window.withOperatingTokens tokens)

theorem Window.new_ok {tokens output : UInt32} {window : Window}
    (made : Window.new tokens output = .ok window) :
    tokens ≠ 0 ∧ output ≠ 0 ∧ window = ⟨tokens, output, compactPercent, tokens⟩ := by
  unfold Window.new at made
  split at made
  · contradiction
  · rename_i positive
    rw [not_or] at positive
    rw [Except.ok.injEq] at made
    exact ⟨positive.1, positive.2, made.symm⟩

theorem Window.Built.bounds {window : Window} (built : window.Built) :
    window.tokens ≠ 0 ∧ window.output ≠ 0 ∧ 1 ≤ window.trigger ∧
      window.trigger ≤ compactPercent ∧ window.operating ≤ window.tokens := by
  induction built with
  | new made =>
      obtain ⟨tokens, output, rfl⟩ := Window.new_ok made
      have low : 1 ≤ compactPercent := by decide
      exact ⟨tokens, output, low, Nat.le_refl _, UInt32.le_refl _⟩
  | triggerPercent built percent ih =>
      obtain ⟨tokens, output, _, _, operating⟩ := ih
      refine ⟨tokens, output, Nat.le_max_left _ _, ?_, operating⟩
      exact Nat.max_le.mpr ⟨by decide, Nat.min_le_right _ _⟩
  | operatingTokens built tokens ih =>
      rename_i window
      obtain ⟨positive, output, low, high, _⟩ := ih
      refine ⟨positive, output, low, high, ?_⟩
      simp only [Window.withOperatingTokens]
      split
      · exact UInt32.le_refl _
      · rw [UInt32.le_iff_toNat_le]
        show (min window.tokens tokens).toNat ≤ _
        rw [show min window.tokens tokens = if window.tokens ≤ tokens then window.tokens else tokens
          from rfl]
        split
        · exact Nat.le_refl _
        · rename_i above
          rw [UInt32.le_iff_toNat_le] at above
          omega

/-! ## Machine arithmetic -/

/-- What the planner computes of a window is exact: products stay within a
`u64`, and where a sum saturates or a difference stops at zero the comparison it
is made for comes out as for the exact one. -/
structure Window.Exact (window : Window) : Prop where
  safe : window.tokens.toNat * safePercent ≤ u64Max
  trigger : window.operating.toNat * window.trigger ≤ u64Max
  sum : ∀ (input : UInt64) (output : UInt32),
    saturatingAdd input.toNat output.toNat ≤ window.safeTokens ↔
      input.toNat + output.toNat ≤ window.safeTokens
  remaining : ∀ (input : UInt64) (output : Nat), 0 < output →
    (output ≤ window.safeTokens - input.toNat ↔ input.toNat + output ≤ window.safeTokens)
  granted : ∀ input : UInt64, min window.output.toNat (window.safeTokens - input.toNat) < 2 ^ 32
  kept : ∀ (exhausted : Bool) (groups : List Group), keepCount exhausted groups ≤ groups.length

theorem Window.safeTokens_lt (window : Window) : window.safeTokens < 2 ^ 32 := by
  have small := window.tokens.toNat_lt
  simp only [Window.safeTokens, safePercent, percentWhole]
  omega

theorem saturatingAdd_le_iff {left right limit : Nat} (small : limit < u64Max) :
    saturatingAdd left right ≤ limit ↔ left + right ≤ limit := by
  unfold saturatingAdd
  omega

theorem Window.Built.exact {window : Window} (built : window.Built) : window.Exact := by
  have small := window.safeTokens_lt
  have below : window.safeTokens < u64Max := Nat.lt_of_lt_of_le small (by decide)
  obtain ⟨_, _, _, trigger, _⟩ := built.bounds
  refine ⟨?_, ?_, fun input output => saturatingAdd_le_iff below, ?_, ?_, ?_⟩
  · have tokens := window.tokens.toNat_lt
    simp only [safePercent, u64Max]
    omega
  · have operating := window.operating.toNat_lt
    calc window.operating.toNat * window.trigger
        ≤ 2 ^ 32 * compactPercent := Nat.mul_le_mul (Nat.le_of_lt operating) trigger
      _ ≤ u64Max := by decide
  · intro input output positive
    omega
  · intro input
    have output := window.output.toNat_lt
    omega
  · intro exhausted groups
    unfold keepCount
    split
    · omega
    · exact Nat.zero_le _

/-! ## Plans -/

def Plan.Fits (window : Window) (estimator : TokenEstimator) : Plan → Prop
  | .ready summary groups output =>
      ∃ input, estimator.continuation summary groups = some input ∧ 0 < output ∧
        output ≤ window.output.toNat ∧ input.toNat + output ≤ window.safeTokens
  | .compact task =>
      ∃ input, estimator.compaction task = some input ∧
        task.outputTokens ≤ window.output.toNat ∧
          input.toNat + task.outputTokens ≤ window.safeTokens

theorem fitCompaction_fits (window : Window) (estimator : TokenEstimator) (task : Compaction)
    (allowed : task.outputTokens ≤ window.output.toNat) (plan : Plan)
    (planned : fitCompaction window estimator task = .ok plan) : plan.Fits window estimator := by
  have below : window.safeTokens < u64Max :=
    Nat.lt_of_lt_of_le window.safeTokens_lt (by decide)
  induction task using fitCompaction.induct window estimator with
  | case1 task empty =>
      rw [fitCompaction, if_pos empty] at planned
      contradiction
  | case2 task groups failed =>
      rw [fitCompaction, if_neg groups, failed] at planned
      contradiction
  | case3 task groups input measured fits =>
      rw [fitCompaction, if_neg groups, measured] at planned
      simp only [fits, if_true, Except.ok.injEq] at planned
      subst planned
      exact ⟨input, measured, allowed, (saturatingAdd_le_iff below).mp fits⟩
  | case4 task groups input measured exceeds ih =>
      rw [fitCompaction, if_neg groups, measured] at planned
      simp only [exceeds, if_false] at planned
      exact ih allowed planned

theorem measure_fits (request : Request) (read : Reading) (exhausted : Bool) (plan : Plan)
    (planned : measure request read exhausted = .ok (some plan)) :
    plan.Fits request.window request.estimator := by
  unfold measure at planned
  cases measured : request.estimator.continuation (request.checkpoint.map Checkpoint.summary)
      read.groups with
  | none => simp [measured] at planned
  | some input =>
      simp only [measured] at planned
      split at planned
      · have granted := request.window.fitOutput_spec input
        cases fitted : request.window.fitOutput input with
        | error failure => simp [fitted] at planned
        | ok output =>
            rw [fitted] at granted
            simp only [fitted, Except.ok.injEq, Option.some.injEq] at planned
            subst planned
            exact ⟨input, measured, granted⟩
      · split at planned
        · cases compacted : compact read.groups request.checkpoint request.identity
              request.generation request.window request.estimator exhausted with
          | error failure => simp [compacted] at planned
          | ok made =>
              simp only [compacted, Except.ok.injEq, Option.some.injEq] at planned
              subst planned
              exact fitCompaction_fits _ _ _ (Nat.min_le_right _ _) made compacted
        · simp at planned

/-- Every plan the loop answers was settled by one measure; the induction is on
the reads allowed. -/
theorem prepareLoop_fits (encoding : Encoding) (source : HistorySource) (request : Request)
    (stopped : Nat → Bool) {reads : Nat} {read : Reading} {estimateAt : Nat} {plan : Plan}
    (planned : prepareLoop encoding source request stopped reads read estimateAt =
      some (.ok plan)) : plan.Fits request.window request.estimator := by
  induction reads generalizing read estimateAt with
  | zero => simp [prepareLoop] at planned
  | succ reads ih =>
      unfold prepareLoop at planned
      split at planned
      · simp at planned
      · cases paged : source read.sequence historyPageSize with
        | error failure => simp [paged] at planned
        | ok page =>
            simp only [paged] at planned
            cases appended : read.append encoding request.checkpoint page with
            | error failure => simp [appended] at planned
            | ok next =>
                simp only [appended] at planned
                split at planned
                · exact ih planned
                · cases measured : measure request next (!page.hasMore) with
                  | error failure => simp [measured] at planned
                  | ok settled =>
                      simp only [measured] at planned
                      cases settled with
                      | none => exact ih planned
                      | some made =>
                          simp only [Option.some.injEq, Except.ok.injEq] at planned
                          subst planned
                          exact measure_fits request next _ made measured

/-- Over any source, checkpoint, estimator and window, every plan fits, and
nothing computed on the way overflows. -/
theorem plan_fits_window (encoding : Encoding) (source : HistorySource)
    (estimator : TokenEstimator) (identity : Identity) (stored : Option Checkpoint)
    (window : Window) (built : window.Built) (stopped : Nat → Bool) (reads : Nat) :
    window.Exact ∧ ∀ plan,
      prepare encoding source estimator identity stored window stopped reads = some (.ok plan) →
        plan.Fits window estimator :=
  ⟨built.exact, fun _ planned => prepareLoop_fits encoding source _ stopped planned⟩

/-- A small window over one group too large to send as it is. -/
def smallWindow : Window := ⟨100, 20, 90, 100⟩

def smallEstimator : TokenEstimator where
  continuation _ groups := some (if groups.isEmpty then 10 else 90)
  compaction _ := some 70

def smallEncoding : Encoding := ⟨fun _ => "digest", fun summary => .ok summary.goal⟩

def smallIdentity : Identity := ⟨"scope", "model", "pinned"⟩

theorem small_plan_fits :
    prepare smallEncoding (pages [⟨1, "text"⟩]) smallEstimator smallIdentity none smallWindow
        (fun _ => false) 2 = some (.ok (.compact ⟨smallIdentity, 0, "", none, [⟨1, "text"⟩], 20⟩)) ∧
      Plan.Fits smallWindow smallEstimator
        (.compact ⟨smallIdentity, 0, "", none, [⟨1, "text"⟩], 20⟩) := by
  have planned : prepare smallEncoding (pages [⟨1, "text"⟩]) smallEstimator smallIdentity none
      smallWindow (fun _ => false) 2 =
        some (.ok (.compact ⟨smallIdentity, 0, "", none, [⟨1, "text"⟩], 20⟩)) := by
    decide +kernel
  have made : Window.new 100 20 = .ok smallWindow := by rfl
  exact ⟨planned, (plan_fits_window smallEncoding _ smallEstimator smallIdentity none smallWindow
    (.new made) (fun _ => false) 2).2 _ planned⟩

end Agentsfleet.Context
