import Agentsfleet.Library.Run
import Agentsfleet.Library.Table
import Mathlib.Data.List.Perm.Subperm

/-!
# One run per fleet at a time

The coordinator owns the table of busy fleets and who waits for each; claimers
reach it over one channel.  A turn is a value: dropping it, read or unread,
sends the fleet's release, and one granted to a claimer that has gone comes
straight back.
-/

set_option autoImplicit false

namespace Agentsfleet.Supervisor

open Agentsfleet.Library

/-- Where a claimer is: its grant not there yet, sent and unread, held by it, or
itself gone, which it also is once it has dropped its turn. -/
inductive ClaimerPhase where
  | waiting
  | unread
  | holding
  | gone
deriving DecidableEq, Repr

namespace ClaimerPhase

def hasTurn : ClaimerPhase → Bool
  | .unread | .holding => true
  | .waiting | .gone => false

end ClaimerPhase

structure Claimer (Fleet : Type) where
  fleet : Fleet
  phase : ClaimerPhase
deriving DecidableEq, Repr

/-- Whether the claimer's future, which borrows a handle, is still there. -/
def Claimer.pending {Fleet : Type} (claimer : Claimer Fleet) : Bool :=
  decide (claimer.phase = .waiting) || decide (claimer.phase = .unread)

/-- What a worker asks of the coordinator; a claim names its claimer's channel. -/
inductive Request (Fleet : Type) where
  | claim (fleet : Fleet) (claimer : Nat)
  | release (fleet : Fleet)
deriving DecidableEq, Repr

/-- The coordinator, its channel and its claimers, each numbered as it came.
`served` records the claims taken from the line, in their order. -/
structure Turns (Fleet : Type) where
  claimers : List (Claimer Fleet)
  requests : List (Request Fleet)
  busy : Fleet → Option (List Nat)
  served : List (Fleet × Nat)
  handles : Bool

inductive TurnEvent (Fleet : Type) where
  | claim (fleet : Fleet)
  /-- A claimer's future is dropped before it has its turn in hand. -/
  | abandon (claimer : Nat)
  | read (claimer : Nat)
  | drop (claimer : Nat)
  /-- The last handle goes; a claim borrows one, so none is under way. -/
  | close
  /-- The coordinator takes one request. -/
  | coordinate

namespace Turns

variable {Fleet : Type} [DecidableEq Fleet]

def start : Turns Fleet := ⟨[], [], fun _ => none, [], true⟩

def setBusy (s : Turns Fleet) (fleet : Fleet) (waiting : Option (List Nat)) : Turns Fleet :=
  { s with busy := fun other => if other = fleet then waiting else s.busy other }

/-- Whether `WeakUnboundedSender::upgrade` finds a sender: a handle's or a turn's. -/
def alive (s : Turns Fleet) : Bool :=
  s.handles || s.claimers.any fun claimer => claimer.phase.hasTurn

/-- `grant`: hands a claim its turn, which comes back where nobody is left to read it. -/
def grant (s : Turns Fleet) (fleet : Fleet) (claimer : Nat) : Turns Fleet :=
  let served := { s with served := s.served ++ [(fleet, claimer)] }
  if s.alive then
    if s.claimers[claimer]? = some ⟨fleet, .waiting⟩ then
      { served with claimers := s.claimers.set claimer ⟨fleet, .unread⟩ }
    else { served with requests := s.requests ++ [.release fleet] }
  else served

/-- One turn of the loop in `coordinate`. -/
def coordinate (s : Turns Fleet) : Turns Fleet :=
  match s.requests with
  | [] => s
  | .claim fleet claimer :: rest =>
      let s := { s with requests := rest }
      match s.busy fleet with
      | some waiting => s.setBusy fleet (some (waiting ++ [claimer]))
      | none => (s.setBusy fleet (some [])).grant fleet claimer
  | .release fleet :: rest =>
      let s := { s with requests := rest }
      match s.busy fleet with
      | some (next :: waiting) => (s.setBusy fleet (some waiting)).grant fleet next
      | _ => s.setBusy fleet none

def claim (s : Turns Fleet) (fleet : Fleet) : Turns Fleet :=
  if s.handles then
    { s with
      claimers := s.claimers ++ [⟨fleet, .waiting⟩]
      requests := s.requests ++ [.claim fleet s.claimers.length] }
  else s

/-- Claimer `n` moves on, and sends what the turn it lets go of sends. -/
def move (s : Turns Fleet) (n : Nat) (claimer : Claimer Fleet) (sent : Nat) : Turns Fleet :=
  { s with
    claimers := s.claimers.set n claimer
    requests := s.requests ++ List.replicate sent (.release claimer.fleet) }

def abandon (s : Turns Fleet) (n : Nat) : Turns Fleet :=
  match s.claimers[n]? with
  | some ⟨fleet, .waiting⟩ => s.move n ⟨fleet, .gone⟩ 0
  | some ⟨fleet, .unread⟩ => s.move n ⟨fleet, .gone⟩ 1
  | _ => s

def read (s : Turns Fleet) (n : Nat) : Turns Fleet :=
  match s.claimers[n]? with
  | some ⟨fleet, .unread⟩ => s.move n ⟨fleet, .holding⟩ 0
  | _ => s

def drop (s : Turns Fleet) (n : Nat) : Turns Fleet :=
  match s.claimers[n]? with
  | some ⟨fleet, .holding⟩ => s.move n ⟨fleet, .gone⟩ 1
  | _ => s

def close (s : Turns Fleet) : Turns Fleet :=
  if s.claimers.any Claimer.pending then s else { s with handles := false }

def step (s : Turns Fleet) : TurnEvent Fleet → Turns Fleet
  | .claim fleet => s.claim fleet
  | .abandon n => s.abandon n
  | .read n => s.read n
  | .drop n => s.drop n
  | .close => s.close
  | .coordinate => s.coordinate

/-! ## What is counted -/

def turns (s : Turns Fleet) (fleet : Fleet) : Nat :=
  Table.weight (fun claimer : Claimer Fleet =>
    if claimer.fleet = fleet ∧ claimer.phase.hasTurn = true then 1 else 0) s.claimers

def releases (s : Turns Fleet) (fleet : Fleet) : Nat :=
  s.requests.countP fun request => decide (request = .release fleet)

def servedTo (s : Turns Fleet) (fleet : Fleet) : List Nat :=
  (s.served.filter fun entry => decide (entry.1 = fleet)).map Prod.snd

def queue (s : Turns Fleet) (fleet : Fleet) : List Nat := (s.busy fleet).getD []

def claimsOf (fleet : Fleet) : Request Fleet → Option Nat
  | .claim other claimer => if other = fleet then some claimer else none
  | .release _ => none

def coming (s : Turns Fleet) (fleet : Fleet) : List Nat := s.requests.filterMap (claimsOf fleet)

def numbered (fleet : Fleet) (fleets : List Fleet) : List Nat :=
  (List.range fleets.length).filter fun n => decide (fleets[n]? = some fleet)

def arrivals (s : Turns Fleet) (fleet : Fleet) : List Nat :=
  numbered fleet (s.claimers.map Claimer.fleet)

/-- One for the fleet's turn wherever it is: with a claimer or on its way back. -/
def rights (s : Turns Fleet) (fleet : Fleet) : Nat := s.turns fleet + s.releases fleet

def line (s : Turns Fleet) (fleet : Fleet) : List Nat :=
  s.servedTo fleet ++ s.queue fleet ++ s.coming fleet

theorem numbered_append (fleet other : Fleet) (fleets : List Fleet) :
    numbered fleet (fleets ++ [other]) =
      numbered fleet fleets ++ if other = fleet then [fleets.length] else [] := by
  unfold numbered
  rw [List.length_append, List.length_singleton, List.range_succ, List.filter_append]
  congr 1
  · apply List.filter_congr
    intro n member
    rw [List.getElem?_append_left (List.mem_range.mp member)]
  · rw [List.filter_singleton, List.getElem?_concat_length]
    by_cases same : other = fleet
    · simp [same]
    · simp [same]

theorem mem_numbered {fleet : Fleet} {fleets : List Fleet} {n : Nat} :
    n ∈ numbered fleet fleets ↔ fleets[n]? = some fleet := by
  unfold numbered
  rw [List.mem_filter, List.mem_range, decide_eq_true_eq]
  constructor
  · exact And.right
  · intro held
    obtain ⟨inside, _⟩ := List.getElem?_eq_some_iff.mp held
    exact ⟨inside, held⟩

theorem mem_arrivals {s : Turns Fleet} {fleet : Fleet} {n : Nat} :
    n ∈ s.arrivals fleet ↔ ∃ phase, s.claimers[n]? = some ⟨fleet, phase⟩ := by
  rw [arrivals, mem_numbered, List.getElem?_map, Option.map_eq_some_iff]
  constructor
  · rintro ⟨⟨_, phase⟩, held, rfl⟩
    exact ⟨phase, held⟩
  · rintro ⟨phase, held⟩
    exact ⟨_, held, rfl⟩

/-- What every step keeps.  A fleet in the table has its turn somewhere; once no
sender is left an entry may outlive its turn, and the coordinator ends. -/
structure Sound (s : Turns Fleet) : Prop where
  ordered : ∀ fleet, s.line fleet = s.arrivals fleet
  single : ∀ fleet, s.rights fleet ≤ 1
  owned : ∀ fleet, s.busy fleet = none → s.rights fleet = 0
  tight : s.alive = true → ∀ fleet, (s.busy fleet).isSome = true → s.rights fleet = 1
  borrowed : ∀ claimer ∈ s.claimers, claimer.pending = true → s.handles = true
  granted : ∀ fleet n phase, s.claimers[n]? = some ⟨fleet, phase⟩ →
    ((fleet, n) ∈ s.served → phase ≠ .waiting) ∧ (phase.hasTurn = true → (fleet, n) ∈ s.served)

theorem sound_start : (start : Turns Fleet).Sound where
  ordered _ := rfl
  single _ := Nat.zero_le _
  owned _ _ := rfl
  tight _ _ held := by simp [start] at held
  borrowed _ member := by simp [start] at member
  granted _ _ _ held := by simp [start] at held

/-! ## Grants -/

theorem servedTo_append (s : Turns Fleet) (fleet other : Fleet) (n : Nat) :
    ((s.served ++ [(fleet, n)]).filter fun entry => decide (entry.1 = other)).map Prod.snd =
      s.servedTo other ++ if fleet = other then [n] else [] := by
  rw [List.filter_append, List.map_append, servedTo, List.filter_singleton]
  by_cases same : fleet = other
  · simp [same]
  · simp [same]

omit [DecidableEq Fleet] in
theorem any_hasTurn_set {claimers : List (Claimer Fleet)} {n : Nat} {before after : Claimer Fleet}
    (held : claimers[n]? = some before)
    (kept : after.phase.hasTurn = true → before.phase.hasTurn = true)
    (any : (claimers.set n after).any (fun claimer => claimer.phase.hasTurn) = true) :
    claimers.any (fun claimer => claimer.phase.hasTurn) = true := by
  rw [List.any_eq_true] at any ⊢
  obtain ⟨claimer, member, has⟩ := any
  rcases List.mem_or_eq_of_mem_set member with inside | rfl
  · exact ⟨claimer, inside, has⟩
  · exact ⟨before, List.mem_of_getElem? held, kept has⟩

theorem grant_rights {s : Turns Fleet} {fleet : Fleet} (n : Nat) (alive : s.alive = true)
    (other : Fleet) :
    (s.grant fleet n).rights other = s.rights other + if other = fleet then 1 else 0 := by
  unfold grant
  simp only [alive, if_true]
  by_cases waits : s.claimers[n]? = some ⟨fleet, .waiting⟩
  · rw [if_pos waits]
    have moved := Table.weight_set (fun claimer : Claimer Fleet =>
      if claimer.fleet = other ∧ claimer.phase.hasTurn = true then 1 else 0) waits ⟨fleet, .unread⟩
    simp only [rights, turns, releases, ClaimerPhase.hasTurn, and_true, Bool.false_eq_true,
      and_false,
      if_false] at moved ⊢
    by_cases same : other = fleet
    · rw [if_pos same]
      rw [if_pos same.symm] at moved
      omega
    · rw [if_neg same]
      rw [if_neg (Ne.symm same)] at moved
      omega
  · rw [if_neg waits]
    simp only [rights, turns, releases, List.countP_append, List.countP_singleton,
      decide_eq_true_eq, Request.release.injEq]
    by_cases same : other = fleet
    · rw [if_pos same, if_pos same.symm]
      omega
    · rw [if_neg same, if_neg (Ne.symm same)]
      omega

omit [DecidableEq Fleet] in
theorem map_fleet_set {claimers : List (Claimer Fleet)} {n : Nat} {before : Claimer Fleet}
    (held : claimers[n]? = some before) (after : Claimer Fleet)
    (same : after.fleet = before.fleet) :
    (claimers.set n after).map Claimer.fleet = claimers.map Claimer.fleet := by
  rw [List.map_set, same]
  apply Table.set_found
  rw [List.getElem?_map, held]
  rfl

theorem grant_cases (s : Turns Fleet) (fleet : Fleet) (n : Nat) :
    (s.alive = true ∧ s.claimers[n]? = some ⟨fleet, .waiting⟩ ∧ s.grant fleet n =
        { s with
          served := s.served ++ [(fleet, n)]
          claimers := s.claimers.set n ⟨fleet, .unread⟩ }) ∨
      (s.alive = true ∧ s.claimers[n]? ≠ some ⟨fleet, .waiting⟩ ∧ s.grant fleet n =
        { s with
          served := s.served ++ [(fleet, n)]
          requests := s.requests ++ [.release fleet] }) ∨
      (s.alive = false ∧ s.grant fleet n = { s with served := s.served ++ [(fleet, n)] }) := by
  unfold grant
  cases alive : s.alive with
  | false => exact .inr (.inr ⟨rfl, rfl⟩)
  | true =>
      by_cases waits : s.claimers[n]? = some ⟨fleet, .waiting⟩
      · refine .inl ⟨rfl, waits, ?_⟩
        simp only [waits, if_true]
      · refine .inr (.inl ⟨rfl, waits, ?_⟩)
        simp only [waits, if_true, if_false]

structure Handing (s : Turns Fleet) (fleet : Fleet) (n : Nat) : Prop where
  ordered : ∀ other, s.servedTo other ++ (if fleet = other then [n] else []) ++ s.queue other ++
    s.coming other = s.arrivals other
  free : s.rights fleet = 0
  single : ∀ other, s.rights other ≤ 1
  busy : (s.busy fleet).isSome = true
  owned : ∀ other, s.busy other = none → s.rights other = 0
  tight : s.alive = true → ∀ other, other ≠ fleet → (s.busy other).isSome = true →
    s.rights other = 1
  borrowed : ∀ claimer ∈ s.claimers, claimer.pending = true → s.handles = true
  granted : ∀ fleet n phase, s.claimers[n]? = some ⟨fleet, phase⟩ →
    ((fleet, n) ∈ s.served → phase ≠ .waiting) ∧ (phase.hasTurn = true → (fleet, n) ∈ s.served)

namespace Handing

variable {s : Turns Fleet} {fleet : Fleet} {n : Nat} (handing : s.Handing fleet n)

include handing

theorem claimer : ∃ phase, s.claimers[n]? = some ⟨fleet, phase⟩ := by
  rw [← mem_arrivals, ← handing.ordered fleet, if_pos rfl]
  simp

theorem line_grant (other : Fleet) :
    (s.grant fleet n).line other = (s.grant fleet n).arrivals other := by
  have whole := handing.ordered other
  have joined := s.servedTo_append fleet other n
  rcases s.grant_cases fleet n with ⟨_, waits, made⟩ | ⟨_, _, made⟩ | ⟨_, made⟩
  · have fleets := map_fleet_set waits ⟨fleet, .unread⟩ rfl
    simp only [line, arrivals, servedTo, queue, coming, made, joined, fleets] at whole ⊢
    exact whole
  · simp only [line, arrivals, servedTo, queue, coming, made, joined, List.filterMap_append]
      at whole ⊢
    rw [show List.filterMap (claimsOf other) [Request.release fleet] = [] from rfl,
      List.append_nil]
    exact whole
  · simp only [line, arrivals, servedTo, queue, coming, made, joined] at whole ⊢
    exact whole

theorem grant_sound : (s.grant fleet n).Sound := by
  obtain ⟨phase, held⟩ := handing.claimer
  have busy_kept : (s.grant fleet n).busy = s.busy := by
    rcases s.grant_cases fleet n with ⟨_, _, made⟩ | ⟨_, _, made⟩ | ⟨_, made⟩ <;> rw [made]
  have rights_other : ∀ other, other ≠ fleet → (s.grant fleet n).rights other = s.rights other := by
    intro other differs
    rcases s.grant_cases fleet n with ⟨alive, _, _⟩ | ⟨alive, _, _⟩ | ⟨_, made⟩
    · rw [grant_rights n alive, if_neg differs, Nat.add_zero]
    · rw [grant_rights n alive, if_neg differs, Nat.add_zero]
    · rw [made]
      rfl
  have alive_kept : (s.grant fleet n).alive = true → s.alive = true := by
    rcases s.grant_cases fleet n with ⟨alive, _, _⟩ | ⟨alive, _, _⟩ | ⟨_, made⟩
    · exact fun _ => alive
    · exact fun _ => alive
    · rw [made]
      exact id
  refine ⟨handing.line_grant, ?_, ?_, ?_, ?_, ?_⟩
  · intro other
    by_cases same : other = fleet
    · subst same
      rcases s.grant_cases other n with ⟨alive, _, _⟩ | ⟨alive, _, _⟩ | ⟨_, made⟩
      · rw [grant_rights n alive, if_pos rfl, handing.free]
      · rw [grant_rights n alive, if_pos rfl, handing.free]
      · rw [made]
        exact handing.single other
    · rw [rights_other other same]
      exact handing.single other
  · intro other idle
    rw [busy_kept] at idle
    have differs : other ≠ fleet := by
      rintro rfl
      have busy := handing.busy
      rw [idle] at busy
      contradiction
    rw [rights_other other differs]
    exact handing.owned other idle
  · intro alive other busy
    rw [busy_kept] at busy
    have was_alive := alive_kept alive
    by_cases same : other = fleet
    · subst same
      rw [grant_rights n was_alive, if_pos rfl, handing.free]
    · rw [rights_other other same]
      exact handing.tight was_alive other same busy
  · rcases s.grant_cases fleet n with ⟨_, waits, made⟩ | ⟨_, _, made⟩ | ⟨_, made⟩
    · rw [made]
      intro claimer member pending
      rcases List.mem_or_eq_of_mem_set member with inside | rfl
      · exact handing.borrowed claimer inside pending
      · exact handing.borrowed _ (List.mem_of_getElem? waits) rfl
    · rw [made]
      exact handing.borrowed
    · rw [made]
      exact handing.borrowed
  · intro other m its_phase reads
    rcases s.grant_cases fleet n with ⟨_, waits, made⟩ | ⟨_, left, made⟩ | ⟨dead, made⟩
    · rw [made] at reads ⊢
      rw [List.getElem?_set] at reads
      by_cases same : n = m
      · subst same
        have inside := (List.getElem?_eq_some_iff.mp waits).1
        rw [if_pos rfl, if_pos inside, Option.some.injEq, Claimer.mk.injEq] at reads
        obtain ⟨rfl, rfl⟩ := reads
        exact ⟨nofun, fun _ => List.mem_append_right _ (List.mem_singleton_self _)⟩
      · rw [if_neg same] at reads
        obtain ⟨served, turned⟩ := handing.granted other m its_phase reads
        refine ⟨?_, fun has => List.mem_append_left _ (turned has)⟩
        intro member
        rcases List.mem_append.mp member with old | new
        · exact served old
        · rw [List.mem_singleton, Prod.mk.injEq] at new
          exact absurd new.2.symm same
    · rw [made] at reads ⊢
      obtain ⟨served, turned⟩ := handing.granted other m its_phase reads
      refine ⟨?_, fun has => List.mem_append_left _ (turned has)⟩
      intro member
      rcases List.mem_append.mp member with old | new
      · exact served old
      · rw [List.mem_singleton, Prod.mk.injEq] at new
        obtain ⟨rfl, rfl⟩ := new
        rintro rfl
        exact left reads
    · rw [made] at reads ⊢
      obtain ⟨served, turned⟩ := handing.granted other m its_phase reads
      refine ⟨?_, fun has => List.mem_append_left _ (turned has)⟩
      intro member
      -- With no sender left no claimer waits.
      rintro rfl
      have handles := handing.borrowed _ (List.mem_of_getElem? reads) rfl
      rw [alive, handles] at dead
      contradiction

end Handing

/-! ## Steps -/

section Coordinate

variable {s : Turns Fleet} {fleet : Fleet} {rest : List (Request Fleet)}

theorem rights_after_claim {n : Nat} (taken : s.requests = .claim fleet n :: rest)
    (other : Fleet) : { s with requests := rest }.rights other = s.rights other := by
  simp [rights, turns, releases, taken]

theorem rights_after_release (taken : s.requests = .release fleet :: rest) (other : Fleet) :
    { s with requests := rest }.rights other + (if fleet = other then 1 else 0) =
      s.rights other := by
  simp only [rights, turns, releases, taken, List.countP_cons, decide_eq_true_eq,
    Request.release.injEq]
  omega

theorem coming_after_claim {n : Nat} (taken : s.requests = .claim fleet n :: rest)
    (other : Fleet) :
    s.coming other =
      (if fleet = other then [n] else []) ++ { s with requests := rest }.coming other := by
  simp only [coming, taken, List.filterMap_cons, claimsOf]
  by_cases same : fleet = other
  · simp [same]
  · simp [same]

theorem coming_after_release (taken : s.requests = .release fleet :: rest) (other : Fleet) :
    s.coming other = { s with requests := rest }.coming other := by
  rw [coming, taken]
  rfl

end Coordinate

theorem queue_setBusy (s : Turns Fleet) (fleet other : Fleet) (waiting : Option (List Nat)) :
    (s.setBusy fleet waiting).queue other =
      if other = fleet then waiting.getD [] else s.queue other := by
  unfold queue setBusy
  by_cases same : other = fleet
  · simp [same]
  · simp [same]

theorem busy_setBusy (s : Turns Fleet) (fleet other : Fleet) (waiting : Option (List Nat)) :
    (s.setBusy fleet waiting).busy other = if other = fleet then waiting else s.busy other := rfl

namespace Sound

variable {s : Turns Fleet} (sound : s.Sound)

include sound

theorem queued {fleet : Fleet} {n : Nat} {rest : List (Request Fleet)} {waiting : List Nat}
    (taken : s.requests = .claim fleet n :: rest) (busy : s.busy fleet = some waiting) :
    ({ s with requests := rest }.setBusy fleet (some (waiting ++ [n]))).Sound := by
  have rights_kept : ∀ other, ({ s with requests := rest }.setBusy fleet
      (some (waiting ++ [n]))).rights other = s.rights other := rights_after_claim taken
  refine ⟨?_, ?_, ?_, ?_, sound.borrowed, sound.granted⟩
  · intro other
    have whole := sound.ordered other
    rw [line, coming_after_claim taken other] at whole
    rw [line, queue_setBusy]
    by_cases same : other = fleet
    · subst same
      rw [if_pos rfl, queue, busy] at whole
      rw [if_pos rfl]
      simp only [Option.getD_some, List.append_assoc] at whole ⊢
      exact whole
    · rw [if_neg (Ne.symm same), List.nil_append] at whole
      rw [if_neg same]
      exact whole
  · intro other
    rw [rights_kept]
    exact sound.single other
  · intro other idle
    rw [rights_kept]
    rw [busy_setBusy] at idle
    by_cases same : other = fleet
    · rw [if_pos same] at idle
      contradiction
    · rw [if_neg same] at idle
      exact sound.owned other idle
  · intro alive other held
    rw [rights_kept]
    rw [busy_setBusy] at held
    by_cases same : other = fleet
    · rw [same]
      exact sound.tight alive fleet (by rw [busy]; rfl)
    · rw [if_neg same] at held
      exact sound.tight alive other held

theorem first {fleet : Fleet} {n : Nat} {rest : List (Request Fleet)}
    (taken : s.requests = .claim fleet n :: rest) (free : s.busy fleet = none) :
    ({ s with requests := rest }.setBusy fleet (some [])).Handing fleet n := by
  have rights_kept : ∀ other, ({ s with requests := rest }.setBusy fleet
      (some [])).rights other = s.rights other := rights_after_claim taken
  refine ⟨?_, ?_, ?_, ?_, ?_, ?_, sound.borrowed, sound.granted⟩
  · intro other
    have whole := sound.ordered other
    rw [line, coming_after_claim taken other] at whole
    rw [queue_setBusy]
    by_cases same : other = fleet
    · subst same
      rw [if_pos rfl, queue, free] at whole
      rw [if_pos rfl, if_pos rfl]
      simp only [Option.getD_none, Option.getD_some, List.append_nil, List.append_assoc] at whole ⊢
      exact whole
    · rw [if_neg (Ne.symm same), List.nil_append] at whole
      rw [if_neg (Ne.symm same), if_neg same, List.append_nil]
      exact whole
  · rw [rights_kept]
    exact sound.owned fleet free
  · intro other
    rw [rights_kept]
    exact sound.single other
  · rw [busy_setBusy, if_pos rfl]
    rfl
  · intro other idle
    rw [rights_kept]
    rw [busy_setBusy] at idle
    by_cases same : other = fleet
    · rw [if_pos same] at idle
      contradiction
    · rw [if_neg same] at idle
      exact sound.owned other idle
  · intro alive other differs held
    rw [rights_kept]
    rw [busy_setBusy, if_neg differs] at held
    exact sound.tight alive other held

theorem released_rights {fleet : Fleet} {rest : List (Request Fleet)}
    (taken : s.requests = .release fleet :: rest) :
    { s with requests := rest }.rights fleet = 0 ∧
      ∀ other, other ≠ fleet → { s with requests := rest }.rights other = s.rights other := by
  constructor
  · have moved := rights_after_release taken fleet
    have single := sound.single fleet
    rw [if_pos rfl] at moved
    omega
  · intro other differs
    have moved := rights_after_release taken other
    rw [if_neg (Ne.symm differs)] at moved
    exact moved

theorem passed {fleet : Fleet} {n : Nat} {rest : List (Request Fleet)} {waiting : List Nat}
    (taken : s.requests = .release fleet :: rest) (busy : s.busy fleet = some (n :: waiting)) :
    ({ s with requests := rest }.setBusy fleet (some waiting)).Handing fleet n := by
  obtain ⟨free, others⟩ := sound.released_rights taken
  refine ⟨?_, free, ?_, ?_, ?_, ?_, sound.borrowed, sound.granted⟩
  · intro other
    have whole := sound.ordered other
    rw [line, coming_after_release taken other] at whole
    rw [queue_setBusy]
    by_cases same : other = fleet
    · subst same
      rw [queue, busy] at whole
      rw [if_pos rfl, if_pos rfl]
      simp only [Option.getD_some, List.append_assoc, List.cons_append, List.nil_append] at whole ⊢
      exact whole
    · rw [if_neg (Ne.symm same), if_neg same, List.append_nil]
      exact whole
  · intro other
    by_cases same : other = fleet
    · rw [same]
      exact Nat.le_trans (Nat.le_of_eq free) (Nat.zero_le _)
    · exact Nat.le_trans (Nat.le_of_eq (others other same)) (sound.single other)
  · rw [busy_setBusy, if_pos rfl]
    rfl
  · intro other idle
    rw [busy_setBusy] at idle
    by_cases same : other = fleet
    · rw [if_pos same] at idle
      contradiction
    · rw [if_neg same] at idle
      exact (others other same).trans (sound.owned other idle)
  · intro alive other differs held
    rw [busy_setBusy, if_neg differs] at held
    exact (others other differs).trans (sound.tight alive other held)

theorem freed {fleet : Fleet} {rest : List (Request Fleet)}
    (taken : s.requests = .release fleet :: rest) (empty : s.queue fleet = []) :
    ({ s with requests := rest }.setBusy fleet none).Sound := by
  obtain ⟨free, others⟩ := sound.released_rights taken
  refine ⟨?_, ?_, ?_, ?_, sound.borrowed, sound.granted⟩
  · intro other
    have whole := sound.ordered other
    rw [line, coming_after_release taken other] at whole
    rw [line, queue_setBusy]
    by_cases same : other = fleet
    · subst same
      rw [empty] at whole
      rw [if_pos rfl]
      exact whole
    · rw [if_neg same]
      exact whole
  · intro other
    by_cases same : other = fleet
    · rw [same]
      exact Nat.le_trans (Nat.le_of_eq free) (Nat.zero_le _)
    · exact Nat.le_trans (Nat.le_of_eq (others other same)) (sound.single other)
  · intro other idle
    rw [busy_setBusy] at idle
    by_cases same : other = fleet
    · rw [same]
      exact free
    · rw [if_neg same] at idle
      exact (others other same).trans (sound.owned other idle)
  · intro alive other held
    rw [busy_setBusy] at held
    by_cases same : other = fleet
    · rw [if_pos same] at held
      contradiction
    · rw [if_neg same] at held
      exact (others other same).trans (sound.tight alive other held)

theorem coordinate : s.coordinate.Sound := by
  unfold Turns.coordinate
  cases taken : s.requests with
  | nil => exact sound
  | cons request rest =>
      cases request with
      | claim fleet n =>
          cases busy : s.busy fleet with
          | none =>
              simp only [busy]
              exact (sound.first taken busy).grant_sound
          | some waiting =>
              simp only [busy]
              exact sound.queued taken busy
      | release fleet =>
          cases busy : s.busy fleet with
          | none =>
              simp only [busy]
              exact sound.freed taken (by rw [queue, busy]; rfl)
          | some waiting =>
              cases waiting with
              | nil =>
                  simp only [busy]
                  exact sound.freed taken (by rw [queue, busy]; rfl)
              | cons n waiting =>
                  simp only [busy]
                  exact (sound.passed taken busy).grant_sound

theorem move {n : Nat} {before : Claimer Fleet} {phase : ClaimerPhase} {sent : Nat}
    (held : s.claimers[n]? = some before)
    (balance : before.phase.hasTurn.toNat = phase.hasTurn.toNat + sent)
    (gone : (Claimer.mk before.fleet phase).pending = false) :
    (s.move n ⟨before.fleet, phase⟩ sent).Sound := by
  have still : phase.hasTurn = true → before.phase.hasTurn = true := by
    intro has
    rw [has] at balance
    cases was : before.phase.hasTurn with
    | true => rfl
    | false =>
        rw [was] at balance
        simp at balance
        omega
  have rights_kept : ∀ other, (s.move n ⟨before.fleet, phase⟩ sent).rights other =
      s.rights other := by
    intro other
    have moved := Table.weight_set (fun claimer : Claimer Fleet =>
      if claimer.fleet = other ∧ claimer.phase.hasTurn = true then 1 else 0) held
      ⟨before.fleet, phase⟩
    simp only [rights, turns, releases, Turns.move, List.countP_append, List.countP_replicate,
      decide_eq_true_eq, Request.release.injEq]
    by_cases same : before.fleet = other
    · simp only [same, true_and, if_true] at moved ⊢
      cases was : before.phase.hasTurn <;> cases is : phase.hasTurn <;>
        simp [was, is] at balance moved ⊢ <;> omega
    · simp only [same, false_and, if_false] at moved ⊢
      omega
  have fleets := map_fleet_set held ⟨before.fleet, phase⟩ rfl
  have alive_kept : (s.move n ⟨before.fleet, phase⟩ sent).alive = true → s.alive = true := by
    intro alive
    rw [Turns.alive, Bool.or_eq_true] at alive ⊢
    rcases alive with handles | any
    · exact .inl handles
    · exact .inr (any_hasTurn_set held still any)
  refine ⟨?_, ?_, ?_, ?_, ?_, ?_⟩
  · intro other
    have whole := sound.ordered other
    have nothing : (List.replicate sent (Request.release before.fleet)).filterMap
        (claimsOf other) = [] := by
      rw [List.filterMap_eq_nil_iff]
      intro request member
      rw [List.eq_of_mem_replicate member]
      rfl
    simp only [line, arrivals, coming, Turns.move, fleets, List.filterMap_append, nothing,
      List.append_nil] at whole ⊢
    exact whole
  · intro other
    rw [rights_kept]
    exact sound.single other
  · intro other idle
    rw [rights_kept]
    exact sound.owned other idle
  · intro alive other busy
    rw [rights_kept]
    exact sound.tight (alive_kept alive) other busy
  · intro claimer member pending
    rcases List.mem_or_eq_of_mem_set member with inside | rfl
    · exact sound.borrowed claimer inside pending
    · rw [gone] at pending
      contradiction
  · intro other m its_phase reads
    simp only [Turns.move] at reads
    rw [List.getElem?_set] at reads
    by_cases same : n = m
    · subst same
      have inside := (List.getElem?_eq_some_iff.mp held).1
      rw [if_pos rfl, if_pos inside, Option.some.injEq, Claimer.mk.injEq] at reads
      obtain ⟨rfl, rfl⟩ := reads
      refine ⟨?_, fun has => (sound.granted _ _ _ held).2 (still has)⟩
      rintro _ rfl
      contradiction
    · rw [if_neg same] at reads
      exact sound.granted other m its_phase reads

theorem abandon (n : Nat) : (s.abandon n).Sound := by
  unfold Turns.abandon
  split
  · rename_i fleet held
    exact sound.move held rfl rfl
  · rename_i fleet held
    exact sound.move held rfl rfl
  · exact sound

theorem read (n : Nat) : (s.read n).Sound := by
  unfold Turns.read
  split
  · rename_i fleet held
    exact sound.move held rfl rfl
  · exact sound

theorem drop (n : Nat) : (s.drop n).Sound := by
  unfold Turns.drop
  split
  · rename_i fleet held
    exact sound.move held rfl rfl
  · exact sound

theorem claim (fleet : Fleet) : (s.claim fleet).Sound := by
  unfold Turns.claim
  by_cases handles : s.handles = true
  · rw [if_pos handles]
    have was_alive : s.alive = true := by rw [Turns.alive, handles, Bool.true_or]
    have rights_kept : ∀ other, ({ s with
        claimers := s.claimers ++ [⟨fleet, .waiting⟩]
        requests := s.requests ++ [.claim fleet s.claimers.length] } : Turns Fleet).rights other =
          s.rights other := by
      intro other
      simp [rights, turns, releases, ClaimerPhase.hasTurn]
    refine ⟨?_, ?_, ?_, ?_, ?_, ?_⟩
    · intro other
      have whole := sound.ordered other
      have last : [Request.claim fleet s.claimers.length].filterMap (claimsOf other) =
          if fleet = other then [s.claimers.length] else [] := by
        rw [List.filterMap_cons, claimsOf, List.filterMap_nil]
        by_cases same : fleet = other
        · simp [same]
        · simp [same]
      simp only [line, arrivals, coming, List.filterMap_append, List.map_append, List.map_singleton,
        numbered_append, List.length_map, last] at whole ⊢
      rw [← whole, List.append_assoc _ _ (if fleet = other then _ else _)]
      rfl
    · intro other
      rw [rights_kept]
      exact sound.single other
    · intro other idle
      rw [rights_kept]
      exact sound.owned other idle
    · intro _ other busy
      rw [rights_kept]
      exact sound.tight was_alive other busy
    · exact fun _ _ _ => handles
    · intro other m its_phase reads
      by_cases old : m < s.claimers.length
      · rw [List.getElem?_append_left old] at reads
        exact sound.granted other m its_phase reads
      · obtain ⟨inside, _⟩ := List.getElem?_eq_some_iff.mp reads
        rw [List.length_append, List.length_singleton] at inside
        have last : m = s.claimers.length := by omega
        subst last
        rw [List.getElem?_concat_length, Option.some.injEq, Claimer.mk.injEq] at reads
        obtain ⟨rfl, rfl⟩ := reads
        refine ⟨?_, nofun⟩
        -- Whoever is served stands in the line, so came before.
        intro served
        have inside_line : s.claimers.length ∈ s.line fleet := by
          refine List.mem_append_left _ (List.mem_append_left _ ?_)
          rw [servedTo, List.mem_map]
          exact ⟨_, List.mem_filter.mpr ⟨served, by simp⟩, rfl⟩
        rw [sound.ordered, mem_arrivals] at inside_line
        obtain ⟨phase, held⟩ := inside_line
        rw [List.getElem?_eq_none (Nat.le_refl _)] at held
        contradiction
  · rw [if_neg handles]
    exact sound

theorem close : s.close.Sound := by
  unfold Turns.close
  by_cases under_way : s.claimers.any Claimer.pending = true
  · rw [if_pos under_way]
    exact sound
  · rw [if_neg under_way]
    refine ⟨sound.ordered, sound.single, sound.owned, ?_, ?_, sound.granted⟩
    · intro alive
      refine sound.tight ?_
      rw [Turns.alive, Bool.false_or] at alive
      rw [Turns.alive, alive, Bool.or_true]
    · intro claimer member pending
      exact absurd (List.any_eq_true.mpr ⟨claimer, member, pending⟩) under_way

theorem step (event : TurnEvent Fleet) : (s.step event).Sound := by
  cases event with
  | claim fleet => exact sound.claim fleet
  | abandon n => exact sound.abandon n
  | read n => exact sound.read n
  | drop n => exact sound.drop n
  | close => exact sound.close
  | coordinate => exact sound.coordinate

end Sound

/-! ## Left alone, the coordinator settles -/

theorem Sound.served_le {s : Turns Fleet} (sound : s.Sound) :
    s.served.length ≤ s.claimers.length := by
  have mine : ∀ entry ∈ s.served, entry.2 ∈ s.arrivals entry.1 := by
    intro entry member
    rw [← sound.ordered entry.1]
    refine List.mem_append_left _ (List.mem_append_left _ ?_)
    rw [servedTo, List.mem_map]
    exact ⟨entry, List.mem_filter.mpr ⟨member, by simp⟩, rfl⟩
  have once : s.served.Nodup := by
    rw [List.nodup_iff_count_le_one]
    intro entry
    have per_fleet : (s.servedTo entry.1).Nodup := by
      have whole : (s.line entry.1).Nodup := by
        rw [sound.ordered entry.1]
        exact List.nodup_range.filter _
      exact (List.nodup_append.mp (List.nodup_append.mp whole).1).1
    have listed : (s.served.filter fun other => decide (other.1 = entry.1)).Nodup :=
      List.Nodup.of_map _ per_fleet
    have counted := List.nodup_iff_count_le_one.mp listed entry
    rwa [List.count_filter (by simp)] at counted
  have numbers : (s.served.map Prod.snd).Nodup := by
    refine once.map_on ?_
    intro one one_member two two_member same
    obtain ⟨phase, held⟩ := mem_arrivals.mp (mine one one_member)
    obtain ⟨other_phase, other_held⟩ := mem_arrivals.mp (mine two two_member)
    rw [← same, held, Option.some.injEq, Claimer.mk.injEq] at other_held
    exact Prod.ext other_held.1 same
  have below : s.served.map Prod.snd ⊆ List.range s.claimers.length := by
    intro n member
    obtain ⟨entry, inside, rfl⟩ := List.mem_map.mp member
    obtain ⟨phase, held⟩ := mem_arrivals.mp (mine entry inside)
    exact List.mem_range.mpr (List.getElem?_eq_some_iff.mp held).1
  have short := (numbers.subperm below).length_le
  rwa [List.length_map, List.length_range] at short

/-- How many requests the coordinator may yet take if nothing else happens. -/
def work (s : Turns Fleet) : Nat := s.requests.length + (s.claimers.length - s.served.length)

theorem work_grant (s : Turns Fleet) (fleet : Fleet) (n : Nat)
    (sound : (s.grant fleet n).Sound) : (s.grant fleet n).work ≤ s.work := by
  have served := sound.served_le
  unfold work
  rcases s.grant_cases fleet n with ⟨_, _, made⟩ | ⟨_, _, made⟩ | ⟨_, made⟩
  · rw [made] at served ⊢
    simp only [List.length_append, List.length_singleton, List.length_set] at served ⊢
    omega
  · rw [made] at served ⊢
    simp only [List.length_append, List.length_singleton] at served ⊢
    omega
  · rw [made] at served ⊢
    simp only [List.length_append, List.length_singleton] at served ⊢
    omega

theorem coordinate_lowers {s : Turns Fleet} (sound : s.Sound) (left : s.requests ≠ []) :
    s.coordinate.work < s.work := by
  unfold coordinate
  cases taken : s.requests with
  | nil => exact absurd taken left
  | cons request rest =>
      have shorter : ∀ fleet waiting,
          ({ s with requests := rest }.setBusy fleet waiting).work < s.work := by
        intro fleet waiting
        simp only [work, setBusy, taken, List.length_cons]
        omega
      cases request with
      | claim fleet n =>
          cases busy : s.busy fleet with
          | none =>
              simp only [busy]
              exact Nat.lt_of_le_of_lt
                (work_grant _ fleet n (sound.first taken busy).grant_sound) (shorter fleet _)
          | some waiting =>
              simp only [busy]
              exact shorter fleet _
      | release fleet =>
          cases busy : s.busy fleet with
          | none =>
              simp only [busy]
              exact shorter fleet _
          | some waiting =>
              cases waiting with
              | nil =>
                  simp only [busy]
                  exact shorter fleet _
              | cons n waiting =>
                  simp only [busy]
                  exact Nat.lt_of_le_of_lt
                    (work_grant _ fleet n (sound.passed taken busy).grant_sound) (shorter fleet _)

/-- The state once the coordinator has taken every request there is. -/
def settled (s : Turns Fleet) : Turns Fleet :=
  Run.final step s (List.replicate s.work .coordinate)

theorem Sound.settled_requests {s : Turns Fleet} (sound : s.Sound) : s.settled.requests = [] := by
  have stays : ∀ s : Turns Fleet, s.requests = [] → (s.step .coordinate).requests = [] := by
    intro s none_left
    rw [Turns.step, Turns.coordinate, none_left]
    exact none_left
  exact Run.done_of_measure Turns.step TurnEvent.coordinate work
    (fun _ held => Sound.coordinate held) stays
    (fun _ held left => coordinate_lowers held left) sound (Nat.le_refl _)

theorem Sound.run {s : Turns Fleet} (sound : s.Sound) (events : List (TurnEvent Fleet)) :
    (Run.final Turns.step s events).Sound :=
  Run.invariant_of_step Sound (fun _ event held => Sound.step held event) sound events _
    (Run.final_mem_states Turns.step s events)

/-- With nothing left to take, a fleet is in the table exactly when its turn is
with a claimer, and whoever waits waits for that one. -/
structure Settled (s : Turns Fleet) : Prop where
  requests : s.requests = []
  table : s.alive = true → ∀ fleet, (s.busy fleet).isSome = true ↔ s.turns fleet = 1
  waiting : ∀ fleet n, s.claimers[n]? = some ⟨fleet, .waiting⟩ →
    n ∈ s.queue fleet ∧ s.turns fleet = 1

theorem Sound.conserved {s : Turns Fleet} (sound : s.Sound) (alive : s.alive = true)
    (fleet : Fleet) :
    (s.busy fleet).isSome = true ↔ s.turns fleet + s.releases fleet = 1 := by
  constructor
  · exact sound.tight alive fleet
  · intro one
    cases busy : s.busy fleet with
    | some waiting => rfl
    | none =>
        have none_out := sound.owned fleet busy
        rw [rights] at none_out
        omega

theorem Sound.settles {s : Turns Fleet} (sound : s.Sound) (empty : s.requests = []) :
    s.Settled := by
  have no_releases : ∀ fleet, s.releases fleet = 0 := by
    intro fleet
    rw [releases, empty]
    rfl
  refine ⟨empty, ?_, ?_⟩
  · intro alive fleet
    rw [sound.conserved alive fleet, no_releases, Nat.add_zero]
  · intro fleet n held
    have handles := sound.borrowed _ (List.mem_of_getElem? held) rfl
    have alive : s.alive = true := by rw [alive, handles, Bool.true_or]
    have in_line : n ∈ s.line fleet := by
      rw [sound.ordered fleet, mem_arrivals]
      exact ⟨_, held⟩
    have unserved : n ∉ s.servedTo fleet := by
      intro member
      rw [servedTo, List.mem_map] at member
      obtain ⟨⟨other, m⟩, inside, rfl⟩ := member
      obtain ⟨served, same⟩ := List.mem_filter.mp inside
      obtain rfl : other = fleet := of_decide_eq_true same
      exact (sound.granted other m _ held).1 served rfl
    have waits : n ∈ s.queue fleet := by
      rw [line, coming, empty, List.filterMap_nil, List.append_nil] at in_line
      exact (List.mem_append.mp in_line).resolve_left unserved
    refine ⟨waits, ?_⟩
    have busy : (s.busy fleet).isSome = true := by
      rw [queue] at waits
      cases busy : s.busy fleet with
      | some waiting => rfl
      | none =>
          rw [busy] at waits
          simp at waits
    have one := sound.tight alive fleet busy
    rwa [rights, no_releases, Nat.add_zero] at one

structure Fair (s : Turns Fleet) : Prop where
  exclusive : ∀ fleet, s.turns fleet ≤ 1
  /-- Served, waiting and on their way, the claims of a fleet stand as they came. -/
  ordered : ∀ fleet, s.servedTo fleet ++ s.queue fleet ++ s.coming fleet = s.arrivals fleet
  granted : ∀ fleet n phase, s.claimers[n]? = some ⟨fleet, phase⟩ →
    ((fleet, n) ∈ s.served → phase ≠ .waiting) ∧ (phase.hasTurn = true → (fleet, n) ∈ s.served)
  conserved : s.alive = true → ∀ fleet,
    (s.busy fleet).isSome = true ↔ s.turns fleet + s.releases fleet = 1
  settles : s.settled.Settled

theorem Sound.fair {s : Turns Fleet} (sound : s.Sound) : s.Fair where
  exclusive fleet := Nat.le_trans (Nat.le_add_right _ _) (sound.single fleet)
  ordered := sound.ordered
  granted := sound.granted
  conserved := sound.conserved
  settles := (sound.run _).settles sound.settled_requests

end Turns

/-- Over any interleaving of claims, claimers gone, turns dropped and requests taken. -/
theorem turns_fair {Fleet : Type} [DecidableEq Fleet] (events : List (TurnEvent Fleet)) :
    (Run.final Turns.step Turns.start events).Fair :=
  (Turns.sound_start.run events).fair

end Agentsfleet.Supervisor
