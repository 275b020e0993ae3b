import Agentsfleet.Library.Run
import Mathlib.Logic.Function.Basic

/-!
# The deployment estimate

The unsettled backlog is sampled now and then; in between, the admissions this process
commits are counted onto the last sample.  Any number of admissions ask for the
estimate, each at one of the awaits of `deployment_estimate`; one of them at a time
reads the backlog, while others commit, are counted and are settled.
-/

set_option autoImplicit false

namespace Agentsfleet.Admissions

open Agentsfleet.Library

def sampleEvery : Nat := 1000
/-- How stale the figure may be while the estimate is within budget, in milliseconds. -/
def sampleInterval : Nat := 5000
def refusingInterval : Nat := 500
def u64Max : Nat := 18446744073709551615
def i64Max : Nat := 9223372036854775807
def never : Int := -9223372036854775808

structure Ceiling where
  sampled : Nat
  since : Nat
  readAt : Int
  sampling : Bool
deriving DecidableEq

namespace Ceiling

def new : Ceiling := ⟨0, 0, never, false⟩

def estimate (c : Ceiling) : Nat := min (c.sampled + c.since) u64Max

def admitted (c : Ceiling) : Ceiling := { c with since := c.since + 1 }

/-- The milliseconds from `readAt` to `now`, saturating; none for a clock gone back. -/
def age (c : Ceiling) (now : Int) : Nat := min (now - c.readAt).toNat i64Max

/-- Whether the figure is old enough to read again. -/
def due (c : Ceiling) (now : Int) (estimate budget : Nat) : Bool :=
  if c.readAt = never then true
  else if sampleEvery ≤ c.since then true
  else
    let interval := if budget ≤ estimate then refusingInterval else sampleInterval
    decide (interval ≤ c.age now)

/-- Takes the right to sample; what is counted by then is read either way. -/
def claim (c : Ceiling) : Bool × Nat × Ceiling :=
  (!c.sampling, c.since, { c with sampling := true })

/-- Publishes a figure read while a claim was held, which counted `counted`. -/
def publish (c : Ceiling) (counted rows : Nat) (now : Int) : Ceiling :=
  { c with sampled := rows, since := c.since - counted, readAt := now }

/-- A claim that won lets the right go however the sample ends. -/
def release (c : Ceiling) : Ceiling := { c with sampling := false }

end Ceiling

structure Backlog where
  rows : Nat
  bigint : rows ≤ i64Max

/-- One call of `deployment_estimate`: about to claim the sample, waiting for the backlog,
answered with it, past the publish with the claim still held, or over. -/
inductive Ask where
  | claiming (now : Int) (estimate : Nat)
  | reading (now : Int) (estimate counted : Nat)
  | read (now : Int) (estimate counted rows : Nat)
  | published (answer : Nat)
  | answered (answer : Nat)
deriving DecidableEq

/-- Whether the call holds the right to sample. -/
def Ask.holds : Ask → Bool
  | .reading .. | .read .. | .published _ => true
  | .claiming .. | .answered _ => false

structure Deployment where
  backlog : Backlog
  /-- The admissions committed and not yet counted. -/
  uncounted : Nat
  ceiling : Ceiling
  asks : Nat → Option Ask
  /-- Whether a sample was published. -/
  published : Bool

inductive DeploymentEvent where
  | commit
  | count
  | settle
  | ask (id : Nat) (now : Int)
  | claim (id : Nat)
  | read (id : Nat)
  | publish (id : Nat)
  | fail (id : Nat)
  | release (id : Nat)
deriving DecidableEq

namespace Deployment

/-- A process that starts on a ledger with some rows unsettled. -/
def new (backlog : Backlog) : Deployment := ⟨backlog, 0, .new, fun _ => none, false⟩

def put (s : Deployment) (id : Nat) (ask : Ask) : Deployment :=
  { s with asks := Function.update s.asks id (some ask) }

/-- A row is inserted; the admission counts it once its commit returned. -/
def commit (s : Deployment) : Deployment :=
  if room : s.backlog.rows < i64Max then
    { s with backlog := ⟨s.backlog.rows + 1, room⟩, uncounted := s.uncounted + 1 }
  else s

def count (s : Deployment) : Deployment :=
  if 0 < s.uncounted then
    { s with uncounted := s.uncounted - 1, ceiling := s.ceiling.admitted }
  else s

def settle (s : Deployment) : Deployment :=
  { s with backlog := ⟨s.backlog.rows - 1, Nat.le_trans (Nat.sub_le _ _) s.backlog.bigint⟩ }

/-- `deployment_estimate` up to its claim. -/
def ask (budget : Nat) (s : Deployment) (id : Nat) (now : Int) : Deployment :=
  match s.asks id with
  | some _ => s
  | none =>
      let estimate := s.ceiling.estimate
      if s.ceiling.due now estimate budget then s.put id (.claiming now estimate)
      else s.put id (.answered estimate)

def claim (s : Deployment) (id : Nat) : Deployment :=
  match s.asks id with
  | some (.claiming now estimate) =>
      let (won, counted, ceiling) := s.ceiling.claim
      if won then ({ s with ceiling }).put id (.reading now estimate counted)
      else s.put id (.answered estimate)
  | _ => s

/-- The database answers with the rows unsettled at this moment. -/
def read (s : Deployment) (id : Nat) : Deployment :=
  match s.asks id with
  | some (.reading now estimate counted) => s.put id (.read now estimate counted s.backlog.rows)
  | _ => s

def publish (s : Deployment) (id : Nat) : Deployment :=
  match s.asks id with
  | some (.read now _ counted rows) =>
      let ceiling := s.ceiling.publish counted rows now
      ({ s with ceiling, published := true }).put id (.published ceiling.estimate)
  | _ => s

/-- The backlog was not read, or the call went before it could publish. -/
def fail (s : Deployment) (id : Nat) : Deployment :=
  match s.asks id with
  | some (.reading _ estimate _) | some (.read _ estimate _ _) =>
      ({ s with ceiling := s.ceiling.release }).put id (.answered estimate)
  | _ => s

def release (s : Deployment) (id : Nat) : Deployment :=
  match s.asks id with
  | some (.published answer) =>
      ({ s with ceiling := s.ceiling.release }).put id (.answered answer)
  | _ => s

def step (budget : Nat) (s : Deployment) : DeploymentEvent → Deployment
  | .commit => s.commit
  | .count => s.count
  | .settle => s.settle
  | .ask id now => s.ask budget id now
  | .claim id => s.claim id
  | .read id => s.read id
  | .publish id => s.publish id
  | .fail id => s.fail id
  | .release id => s.release id

/-- Whether call `id` holds the right to sample. -/
def sampling (s : Deployment) (id : Nat) : Prop := ∃ ask, s.asks id = some ask ∧ ask.holds = true

end Deployment

/-! ## What a sample in progress knows -/

/-- What the count captured at the claim and the figure read since are worth: the rows
not counted in the figure were counted after the claim, or are still to be. -/
def Ask.Fits (s : Deployment) : Ask → Prop
  | .reading _ _ counted => counted ≤ s.ceiling.since
  | .read _ _ counted rows =>
      counted ≤ s.ceiling.since ∧
        s.backlog.rows ≤ rows + (s.ceiling.since - counted) + s.uncounted
  | .claiming .. | .published _ | .answered _ => True

theorem Ask.Fits.of_not_holds (s : Deployment) {ask : Ask} (free : ask.holds = false) :
    ask.Fits s := by
  cases ask with
  | claiming now estimate => trivial
  | reading now estimate counted => cases free
  | read now estimate counted rows => cases free
  | published answer => trivial
  | answered answer => trivial

/-- A figure stays worth as much while the counters move and the rows do not outrun them. -/
theorem Ask.Fits.mono {s t : Deployment} {ask : Ask} (fits : ask.Fits s)
    (grown : s.ceiling.since ≤ t.ceiling.since)
    (rows : t.backlog.rows + s.ceiling.since + s.uncounted ≤
      s.backlog.rows + t.ceiling.since + t.uncounted) : ask.Fits t := by
  cases ask with
  | claiming now estimate => trivial
  | reading now estimate counted => exact Nat.le_trans fits grown
  | read now estimate counted read =>
      obtain ⟨claimed, worth⟩ := fits
      constructor
      · exact Nat.le_trans claimed grown
      · omega
  | published answer => trivial
  | answered answer => trivial

namespace Deployment

structure Sound (s : Deployment) : Prop where
  covered : s.published = true →
    s.backlog.rows ≤ s.ceiling.sampled + s.ceiling.since + s.uncounted
  fits : ∀ id ask, s.asks id = some ask → ask.Fits s
  held : ∀ id, s.sampling id → s.ceiling.sampling = true
  alone : ∀ first second, s.sampling first → s.sampling second → first = second

theorem put_self (s : Deployment) (id : Nat) (ask : Ask) : (s.put id ask).asks id = some ask := by
  simp only [put, Function.update_self]

theorem put_other (s : Deployment) {id other : Nat} (different : other ≠ id) (ask : Ask) :
    (s.put id ask).asks other = s.asks other := by
  simp only [put, Function.update_of_ne different]

theorem sampling_put {s : Deployment} {id other : Nat} {ask : Ask}
    (now : (s.put id ask).sampling other) :
    (other = id ∧ ask.holds = true) ∨ (other ≠ id ∧ s.sampling other) := by
  obtain ⟨found, here, holds⟩ := now
  by_cases same : other = id
  · subst same
    rw [put_self] at here
    obtain rfl := Option.some.inj here
    exact .inl ⟨rfl, holds⟩
  · rw [put_other s same] at here
    exact .inr ⟨same, found, here, holds⟩

/-- A call that gets no right it had not keeps the rest as it is. -/
theorem Sound.put {s : Deployment} (sound : s.Sound) {id : Nat} {ask : Ask} (fits : ask.Fits s)
    (held : ask.holds = true → s.sampling id) : (s.put id ask).Sound := by
  have before {other : Nat} (now : (s.put id ask).sampling other) : s.sampling other := by
    rcases sampling_put now with ⟨rfl, holds⟩ | ⟨-, found⟩
    · exact held holds
    · exact found
  refine ⟨sound.covered, fun other found here => ?_, fun other now => sound.held other (before now),
    fun first second one two => sound.alone first second (before one) (before two)⟩
  have kept : found.Fits s := by
    by_cases same : other = id
    · subst same
      rw [put_self] at here
      exact Option.some.inj here ▸ fits
    · rw [put_other s same] at here
      exact sound.fits other found here
  exact kept.mono (Nat.le_refl _) (Nat.le_refl _)

/-- The counters move: what is covered stays covered, and no sample loses its worth. -/
theorem Sound.counters {s t : Deployment} (sound : s.Sound) (asks : t.asks = s.asks)
    (flag : t.ceiling.sampling = s.ceiling.sampling) (shown : t.published = s.published)
    (sampled : t.ceiling.sampled = s.ceiling.sampled)
    (grown : s.ceiling.since ≤ t.ceiling.since)
    (rows : t.backlog.rows + s.ceiling.since + s.uncounted ≤
      s.backlog.rows + t.ceiling.since + t.uncounted) : t.Sound := by
  have same {id : Nat} : t.sampling id ↔ s.sampling id := by rw [sampling, sampling, asks]
  refine ⟨fun past => ?_, fun id ask here => ?_, fun id now => ?_, fun first second one two => ?_⟩
  · have covered := sound.covered (shown ▸ past)
    omega
  · exact (sound.fits id ask (asks ▸ here)).mono grown rows
  · exact flag.trans (sound.held id (same.mp now))
  · exact sound.alone first second (same.mp one) (same.mp two)

theorem Sound.free {s : Deployment} (sound : s.Sound) (flag : s.ceiling.sampling = false)
    (id : Nat) : ¬ s.sampling id := by
  intro holds
  rw [sound.held id holds] at flag
  cases flag

theorem put_sole {s : Deployment} {id : Nat} {ask : Ask}
    (others : ∀ other, s.sampling other → other = id)
    (covered : s.published = true →
      s.backlog.rows ≤ s.ceiling.sampled + s.ceiling.since + s.uncounted)
    (fits : ask.Fits s) (flag : ask.holds = true → s.ceiling.sampling = true) :
    (s.put id ask).Sound := by
  have sole {other : Nat} (now : (s.put id ask).sampling other) :
      other = id ∧ ask.holds = true := by
    rcases sampling_put now with holds | ⟨different, found⟩
    · exact holds
    · exact absurd (others other found) different
  refine ⟨covered, fun other found here => ?_, fun other now => flag (sole now).2,
    fun first second one two => (sole one).1.trans (sole two).1.symm⟩
  have kept : found.Fits s := by
    by_cases same : other = id
    · subst same
      rw [put_self] at here
      exact Option.some.inj here ▸ fits
    · rw [put_other s same] at here
      cases holds : found.holds with
      | false => exact .of_not_holds s holds
      | true => exact absurd (others other ⟨found, here, holds⟩) same
  exact kept.mono (Nat.le_refl _) (Nat.le_refl _)

theorem Sound.commit {s : Deployment} (sound : s.Sound) : s.commit.Sound := by
  rw [Deployment.commit]
  split
  · exact sound.counters rfl rfl rfl rfl (Nat.le_refl _) (by dsimp only; omega)
  · exact sound

theorem Sound.count {s : Deployment} (sound : s.Sound) : s.count.Sound := by
  rw [Deployment.count]
  split
  · refine sound.counters rfl rfl rfl rfl (Nat.le_succ _) ?_
    dsimp only [Ceiling.admitted]
    omega
  · exact sound

theorem Sound.settle {s : Deployment} (sound : s.Sound) : s.settle.Sound := by
  refine sound.counters rfl rfl rfl rfl (Nat.le_refl _) ?_
  dsimp only [Deployment.settle]
  omega

theorem Sound.ask {s : Deployment} (sound : s.Sound) (budget id : Nat) (now : Int) :
    (s.ask budget id now).Sound := by
  rw [Deployment.ask]
  split
  · exact sound
  · dsimp only
    split
    · exact sound.put trivial nofun
    · exact sound.put trivial nofun

/-- The right is taken while it is free; what is counted by then is what comes off. -/
theorem Sound.claim {s : Deployment} (sound : s.Sound) (id : Nat) : (s.claim id).Sound := by
  rw [Deployment.claim]
  split
  · cases flag : s.ceiling.sampling with
    | true =>
        simp only [Ceiling.claim, flag, Bool.not_true]
        exact sound.put trivial nofun
    | false =>
        simp only [Ceiling.claim, flag, Bool.not_false]
        exact put_sole (fun other holds => absurd holds (sound.free flag other)) sound.covered
          (Nat.le_refl _) fun _ => rfl
  · exact sound

theorem Sound.read {s : Deployment} (sound : s.Sound) (id : Nat) : (s.read id).Sound := by
  rw [Deployment.read]
  split
  · rename_i now estimate counted here
    refine sound.put ⟨sound.fits id _ here, ?_⟩ fun _ => ⟨_, here, rfl⟩
    omega
  · exact sound

/-- The figure replaces the last one, and what its claim had counted comes off. -/
theorem Sound.publish {s : Deployment} (sound : s.Sound) (id : Nat) : (s.publish id).Sound := by
  rw [Deployment.publish]
  split
  · rename_i now estimate counted rows here
    obtain ⟨_, worth⟩ := sound.fits id _ here
    have holds : s.sampling id := ⟨_, here, rfl⟩
    refine put_sole (fun other now => sound.alone other id now holds) (fun _ => worth) trivial
      fun _ => sound.held id holds
  · exact sound

theorem Sound.letGo {s : Deployment} (sound : s.Sound) {id : Nat} (holds : s.sampling id)
    (answer : Nat) :
    (({ s with ceiling := s.ceiling.release } : Deployment).put id (.answered answer)).Sound :=
  put_sole (fun other now => sound.alone other id now holds) sound.covered trivial nofun

theorem Sound.fail {s : Deployment} (sound : s.Sound) (id : Nat) : (s.fail id).Sound := by
  rw [Deployment.fail]
  split
  · rename_i here
    exact sound.letGo ⟨_, here, rfl⟩ _
  · rename_i here
    exact sound.letGo ⟨_, here, rfl⟩ _
  · exact sound

theorem Sound.release {s : Deployment} (sound : s.Sound) (id : Nat) : (s.release id).Sound := by
  rw [Deployment.release]
  split
  · rename_i here
    exact sound.letGo ⟨_, here, rfl⟩ _
  · exact sound

theorem Sound.new (backlog : Backlog) : (Deployment.new backlog).Sound := by
  have nobody {id : Nat} : ¬ (Deployment.new backlog).sampling id := by
    rintro ⟨ask, here, -⟩
    cases here
  refine ⟨fun past => ?_, fun id ask here => ?_, fun id now => absurd now nobody,
    fun first second one _ => absurd one nobody⟩
  · cases past
  · cases here

theorem Sound.step {s : Deployment} (sound : s.Sound) (budget : Nat) (event : DeploymentEvent) :
    (s.step budget event).Sound := by
  cases event with
  | commit => exact sound.commit
  | count => exact sound.count
  | settle => exact sound.settle
  | ask id now => exact sound.ask budget id now
  | claim id => exact sound.claim id
  | read id => exact sound.read id
  | publish id => exact sound.publish id
  | fail id => exact sound.fail id
  | release id => exact sound.release id

theorem fail_estimate (s : Deployment) (id : Nat) :
    (s.fail id).ceiling.estimate = s.ceiling.estimate := by
  rw [Deployment.fail]
  split
  · rfl
  · rfl
  · rfl

/-- However admissions, samples and settles interleave: from the first published sample
on the estimate is no less than the backlog without what is committed and not yet
counted, one call samples at a time, and a sample that fails leaves the estimate. -/
theorem estimate_covers (budget : Nat) (backlog : Backlog) (events : List DeploymentEvent) :
    let s := Run.final (step budget) (.new backlog) events
    (s.published = true → s.backlog.rows - s.uncounted ≤ s.ceiling.estimate) ∧
      (∀ first second, s.sampling first → s.sampling second → first = second) ∧
      ∀ id, (s.step budget (.fail id)).ceiling.estimate = s.ceiling.estimate := by
  intro s
  have sound : s.Sound :=
    Run.invariant_of_step Sound (fun _ event held => held.step budget event) (.new backlog) events s
      (Run.final_mem_states _ _ _)
  refine ⟨fun past => ?_, sound.alone, s.fail_estimate⟩
  have covered := sound.covered past
  have bigint := s.backlog.bigint
  have fits : i64Max ≤ u64Max := by decide
  rw [Ceiling.estimate]
  omega

end Deployment

end Agentsfleet.Admissions
