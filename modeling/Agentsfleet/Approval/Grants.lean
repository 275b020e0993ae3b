import Agentsfleet.Approval.Answers

/-!
# Standing grants

A fleet may mint against an integration once a person said yes on the card raised for it.
No question about one event moves a grant, whatever kind it names and whatever evidence the
fleet's model wrote; a grant has one open card at most; and what a person took back stays
taken back.
-/

set_option autoImplicit false

namespace Agentsfleet.Approval

open Agentsfleet.Core
open Agentsfleet.Library
open Agentsfleet.Library.Run (Taken taken)

/-! ## Cards -/

def Grant.key (grant : Grant) : String × String := (grant.fleet, grant.service)

def Gate.AsksFor (row : Gate) (grant : Grant) : Prop :=
  row.event = none ∧ row.fleet = grant.fleet ∧ row.service = some grant.service

structure GrantsSound (t : Tables) : Prop where
  keys : (t.grants.map Grant.key).Nodup
  cards : ∀ row ∈ t.gates, row.event = none → row.gateType = kindIntegrationGrant ∧
    ∃ grant ∈ t.grants, row.AsksFor grant ∧
      (row.isPending = true → row.activeGrant = some grant.id)
  actives : (t.gates.filterMap Gate.activeGrant).Nodup
  approved : ∀ grant ∈ t.grants, grant.status = .approved →
    ∃ row ∈ t.gates, row.AsksFor grant ∧ row.status = .approved
  decided : ∀ row ∈ t.gates, ∀ grant ∈ t.grants, row.AsksFor grant →
    (row.status = .approved → grant.status ≠ .pending) ∧
      (row.status = .denied → grant.status = .revoked)

structure GrantMoves (old new : Grant) : Prop where
  id : new.id = old.id
  fleet : new.fleet = old.fleet
  service : new.service = old.service
  revoked : old.status = .revoked → new.status = .revoked
  approved : old.status = .approved → new.status ≠ .pending

theorem GrantMoves.stays (grant : Grant) : GrantMoves grant grant :=
  ⟨rfl, rfl, rfl, fun revoked => revoked, fun approved => by rw [approved]; decide⟩

theorem GrantMoves.asksFor {row : Gate} {old new : Grant} (moved : GrantMoves old new) :
    row.AsksFor new ↔ row.AsksFor old := by
  rw [Gate.AsksFor, Gate.AsksFor, moved.fleet, moved.service]

/-! ## Closing gates -/

theorem actives_close {picks : Gate → Bool} {status : GateStatus} {resolver detail : String}
    {now : Int} (rows : List Gate) :
    ((Table.update picks (Gate.close status resolver detail now) rows).filterMap
      Gate.activeGrant).Sublist (rows.filterMap Gate.activeGrant) := by
  induction rows with
  | nil => exact List.Sublist.refl _
  | cons row rest ih =>
      rw [Table.update, List.map_cons, List.filterMap_cons, List.filterMap_cons]
      rw [Table.update] at ih
      by_cases picked : picks row = true
      · rw [if_pos picked]
        have none_active : (row.close status resolver detail now).activeGrant = none := rfl
        rw [none_active]
        cases row.activeGrant with
        | none => exact ih
        | some id => exact ih.cons id
      · rw [if_neg picked]
        cases row.activeGrant with
        | none => exact ih
        | some id => exact ih.cons_cons id

theorem card_of_closed {picks : Gate → Bool} {status : GateStatus} {resolver detail : String}
    {now : Int} {rows : List Gate} {row : Gate}
    (member : row ∈ Table.update picks (Gate.close status resolver detail now) rows) :
    ∃ old ∈ rows, row.event = old.event ∧ row.gateType = old.gateType ∧
      (∀ grant, row.AsksFor grant ↔ old.AsksFor grant) ∧
      (picks old = true ∧ row.status = status ∧ row.isPending = false ∨
        picks old = false ∧ row = old) := by
  obtain ⟨old, held, rfl⟩ := Table.mem_update.mp member
  by_cases picked : picks old = true
  · rw [if_pos picked]
    exact ⟨old, held, rfl, rfl, fun _ => Iff.rfl, .inl ⟨picked, rfl, rfl⟩⟩
  · rw [if_neg picked]
    exact ⟨old, held, rfl, rfl, fun _ => Iff.rfl, .inr ⟨by simpa using picked, rfl⟩⟩

theorem kept_of_closed {picks : Gate → Bool} {status : GateStatus} {resolver detail : String}
    {now : Int} {rows : List Gate} {row : Gate} (held : row ∈ rows)
    (answered : row.isPending = false)
    (pending : ∀ other, picks other = true → other.isPending = true) :
    row ∈ Table.update picks (Gate.close status resolver detail now) rows := by
  refine Table.mem_update.mpr ⟨row, held, ?_⟩
  rw [if_neg]
  intro picked
  rw [pending row picked] at answered
  exact nomatch answered

theorem Gate.Marked.answered {row : Gate} (marked : row.Marked) {status : GateStatus}
    (stands : row.status = status) (ends : status ≠ .pending) : row.isPending = false := by
  by_contra still
  exact ends (stands.symm.trans (marked.status.mpr (by simpa using still)))

section Transactions

variable {uuid7 : Nat → String} {owed : Resolved → String → Prop} {drawn next : Nat}
  {t after : Tables}

theorem closed_grants (gates : GatesSound uuid7 drawn t.gates) (sound : GrantsSound t)
    {picks : Gate → Bool} {status : GateStatus} {resolver detail : String} {now : Int}
    (pending : ∀ row, picks row = true → row.isPending = true)
    (neither : status ≠ .approved ∧ status ≠ .denied)
    (rows : after.gates = Table.update picks (Gate.close status resolver detail now) t.gates)
    (grants : after.grants = t.grants) : GrantsSound after := by
  refine ⟨grants ▸ sound.keys, ?_, ?_, ?_, ?_⟩
  · intro row member runless
    rw [rows] at member
    rw [grants]
    obtain ⟨old, held, event, kind, asks, moved⟩ := card_of_closed member
    obtain ⟨type, grant, inside, asked, active⟩ := sound.cards old held (event.symm.trans runless)
    refine ⟨kind.trans type, grant, inside, (asks grant).mpr asked, fun still => ?_⟩
    rcases moved with ⟨-, -, closed⟩ | ⟨-, rfl⟩
    · rw [closed] at still
      exact nomatch still
    · exact active still
  · rw [rows]
    exact sound.actives.sublist (actives_close _)
  · intro grant inside approved
    rw [grants] at inside
    obtain ⟨row, held, asks, stands⟩ := sound.approved grant inside approved
    refine ⟨row, ?_, asks, stands⟩
    rw [rows]
    exact kept_of_closed held ((gates.marked row held).answered stands (by decide)) pending
  · intro row member grant inside asks
    rw [rows] at member
    rw [grants] at inside
    obtain ⟨old, held, -, -, same, moved⟩ := card_of_closed member
    rcases moved with ⟨-, closed, -⟩ | ⟨-, rfl⟩
    · exact ⟨fun approved => absurd (closed.symm.trans approved) neither.1,
        fun denied => absurd (closed.symm.trans denied) neither.2⟩
    · exact sound.decided row held grant inside asks

/-! ## Moving grants -/

inductive GrantsChange (grants : List Grant) : List Grant → Prop where
  | kept : GrantsChange grants grants
  | moved (picks : Grant → Bool) (change : Grant → Grant)
      (on : ∀ grant, picks grant = true → GrantMoves grant (change grant)) :
      GrantsChange grants (Table.update picks change grants)
  | inserted (grant : Grant) (opens : grant.status = .pending)
      (fresh : ∀ other ∈ grants, other.key ≠ grant.key) :
      GrantsChange grants (grants ++ [grant])

theorem grantOf_eq_some {fleet service : String} {grant : Grant}
    (found : t.grantOf fleet service = some grant) :
    grant ∈ t.grants ∧ grant.fleet = fleet ∧ grant.service = service := by
  have picked := List.find?_some found
  simp only [Bool.and_eq_true, beq_iff_eq] at picked
  exact ⟨List.mem_of_find?_eq_some found, picked⟩

theorem key_fresh {fleet service : String} (missing : ¬ (t.grantOf fleet service).isSome = true) :
    ∀ other ∈ t.grants, other.key ≠ (fleet, service) := by
  intro other member same
  apply missing
  rw [Tables.grantOf, List.find?_isSome]
  obtain ⟨fleets, services⟩ := Prod.mk.inj same
  exact ⟨other, member, by simpa using ⟨fleets, services⟩⟩

theorem ensureGrant_grants (id fleet : String) (wanted : Wanted) (now : Int) :
    GrantsChange t.grants (t.ensureGrant id fleet wanted now).grants := by
  unfold Tables.ensureGrant
  split
  · exact .kept
  · rename_i missing
    exact .inserted _ rfl (key_fresh missing)

theorem request_grants (grantId id action fleet workspace : String) (wanted : Wanted) (now : Int) :
    (t.request grantId id action fleet workspace wanted now).1.grants =
      (t.ensureGrant grantId fleet wanted now).grants := by
  unfold Tables.request Tables.requestGrant
  dsimp only
  split
  · rfl
  · split <;> rfl

theorem answered_moves {outcome : Outcome} {now : Int} {grant : Grant}
    (open_ : grant.status ≠ .revoked) : GrantMoves grant (grant.answered outcome now) := by
  cases outcome <;>
    exact ⟨rfl, rfl, rfl, fun revoked => absurd revoked open_, fun _ same => nomatch same⟩

theorem grants_change (transacts : Transacts uuid7 owed drawn t next after) :
    GrantsChange t.grants after.grants := by
  cases transacts with
  | idle | raise | sweep | cancelSetup | deliver | continueFrom | settle | park => exact .kept
  | openEvent fleet event actor resumes =>
      unfold Tables.openEvent
      dsimp only
      split <;> exact .kept
  | resolve a now =>
      refine .moved _ _ fun grant picked => answered_moves ?_
      obtain ⟨row, -, moves⟩ := List.any_eq_true.mp picked
      simp only [Gate.movesGrant, Bool.and_eq_true, bne_iff_ne] at moves
      exact moves.2
  | request fleet workspace wanted now =>
      rw [request_grants]
      exact ensureGrant_grants _ _ _ _
  | revoke fleet grant now =>
      refine .moved _ _ fun row picked => ?_
      simp only [Bool.and_eq_true, bne_iff_ne] at picked
      exact ⟨rfl, rfl, rfl, fun revoked => absurd revoked picked.2, fun _ same => nomatch same⟩

theorem grant_kept (transacts : Transacts uuid7 owed drawn t next after) {grant : Grant}
    (held : grant ∈ t.grants) : ∃ new ∈ after.grants, GrantMoves grant new := by
  have change := grants_change transacts
  generalize after.grants = rows at change ⊢
  cases change with
  | kept => exact ⟨grant, held, .stays grant⟩
  | moved picks change on =>
      refine ⟨_, Table.mem_update.mpr ⟨grant, held, rfl⟩, ?_⟩
      by_cases picked : picks grant = true
      · rw [if_pos picked]
        exact on grant picked
      · rw [if_neg picked]
        exact .stays grant
  | inserted new _ _ => exact ⟨grant, List.mem_append_left _ held, .stays grant⟩

/-! ## What the transactions keep -/

theorem same_grants (sound : GrantsSound t) (gates : after.gates = t.gates)
    (grants : after.grants = t.grants) : GrantsSound after := by
  refine ⟨grants ▸ sound.keys, ?_, gates ▸ sound.actives, ?_, ?_⟩
  · rw [gates, grants]
    exact sound.cards
  · rw [gates, grants]
    exact sound.approved
  · rw [gates, grants]
    exact sound.decided

theorem raised_grants (sound : GrantsSound t) {row : Gate} {event : String}
    (about : row.event = some event) (inactive : row.activeGrant = none) :
    GrantsSound (t.insertGate row) := by
  have runs : ∀ grant, ¬ row.AsksFor grant := fun grant asks =>
    nomatch about.symm.trans asks.1
  refine ⟨sound.keys, ?_, ?_, ?_, ?_⟩
  · intro other member runless
    rcases List.mem_append.mp member with old | new
    · exact sound.cards other old runless
    · rw [List.mem_singleton.mp new] at runless
      exact nomatch about.symm.trans runless
  · have unmoved : (t.insertGate row).gates.filterMap Gate.activeGrant =
        t.gates.filterMap Gate.activeGrant := by
      simp [Tables.insertGate, List.filterMap_append, inactive]
    rw [unmoved]
    exact sound.actives
  · intro grant inside approved
    obtain ⟨other, held, asks⟩ := sound.approved grant inside approved
    exact ⟨other, List.mem_append_left _ held, asks⟩
  · intro other member grant inside asks
    rcases List.mem_append.mp member with old | new
    · exact sound.decided other old grant inside asks
    · rw [List.mem_singleton.mp new] at asks
      exact absurd asks (runs grant)

theorem ensured_grants (sound : GrantsSound t) (id fleet : String) (wanted : Wanted) (now : Int) :
    GrantsSound (t.ensureGrant id fleet wanted now) := by
  unfold Tables.ensureGrant
  split
  · exact sound
  rename_i missing
  have fresh := key_fresh missing
  refine ⟨?_, ?_, sound.actives, ?_, ?_⟩
  · rw [List.map_append]
    refine sound.keys.append (List.nodup_singleton _) fun key old new => ?_
    obtain ⟨other, member, rfl⟩ := List.mem_map.mp old
    exact fresh other member (List.mem_singleton.mp new)
  · intro row member runless
    obtain ⟨type, grant, inside, asked⟩ := sound.cards row member runless
    exact ⟨type, grant, List.mem_append_left _ inside, asked⟩
  · intro grant inside approved
    rcases List.mem_append.mp inside with old | new
    · exact sound.approved grant old approved
    · rw [List.mem_singleton.mp new] at approved
      exact nomatch approved
  · intro row member grant inside asks
    rcases List.mem_append.mp inside with old | new
    · exact sound.decided row member grant old asks
    · -- A card that asked for the new grant would have found it.
      obtain ⟨-, grant', held, asked, -⟩ := sound.cards row member asks.1
      rw [List.mem_singleton.mp new] at asks
      refine absurd ?_ (fresh grant' held)
      exact Prod.ext (asked.2.1.symm.trans asks.2.1)
        (Option.some.inj (asked.2.2.symm.trans asks.2.2))

theorem card_service (wanted : Wanted) (id action fleet workspace : String) (grant : Grant)
    (now : Int) : (wanted.card id action fleet workspace grant now).service = some wanted.service :=
  rfl

theorem carded_grants (sound : GrantsSound t) {fleet : String} {wanted : Wanted} {grant : Grant}
    (id action workspace : String) (now : Int)
    (found : t.grantOf fleet wanted.service = some grant)
    (unasked : ∀ row ∈ t.gates, row.activeGrant ≠ some grant.id) :
    GrantsSound (t.insertGate (wanted.card id action fleet workspace grant now)) := by
  obtain ⟨inside, ofFleet, ofService⟩ := grantOf_eq_some found
  refine ⟨sound.keys, ?_, ?_, ?_, ?_⟩
  · intro row member runless
    rcases List.mem_append.mp member with old | new
    · exact sound.cards row old runless
    · rw [List.mem_singleton.mp new]
      refine ⟨rfl, grant, inside, ⟨rfl, ofFleet.symm, ?_⟩, fun _ => rfl⟩
      rw [card_service, ofService]
  · have opened : (t.insertGate (wanted.card id action fleet workspace grant now)).gates.filterMap
        Gate.activeGrant = t.gates.filterMap Gate.activeGrant ++ [grant.id] := by
      rw [Tables.insertGate, List.filterMap_append]
      rfl
    rw [opened]
    refine sound.actives.append (List.nodup_singleton _) fun active old new => ?_
    rw [List.mem_singleton.mp new] at old
    obtain ⟨row, member, same⟩ := List.mem_filterMap.mp old
    exact unasked row member same
  · intro other held approved
    obtain ⟨row, member, asks⟩ := sound.approved other held approved
    exact ⟨row, List.mem_append_left _ member, asks⟩
  · intro row member other held asks
    rcases List.mem_append.mp member with old | new
    · exact sound.decided row old other held asks
    · rw [List.mem_singleton.mp new]
      exact ⟨fun same => (by cases same), fun same => (by cases same)⟩

theorem requested_grants (sound : GrantsSound t) (grantId id action fleet workspace : String)
    (wanted : Wanted) (now : Int) :
    GrantsSound (t.request grantId id action fleet workspace wanted now).1 := by
  have ensured := ensured_grants sound grantId fleet wanted now
  unfold Tables.request Tables.requestGrant
  dsimp only
  split
  · exact ensured
  · rename_i grant found
    split
    · rename_i asks
      refine carded_grants ensured id action workspace now found fun row member active => ?_
      exact List.any_eq_false.mp asks.2 row member (beq_iff_eq.mpr active)
    · exact ensured

theorem revoked_grants (sound : GrantsSound t) (fleet id : String) (now : Int) :
    GrantsSound (t.revokeGrant fleet id now) := by
  have came : ∀ grant ∈ (t.revokeGrant fleet id now).grants, ∃ old ∈ t.grants,
      grant.key = old.key ∧ (grant = old ∨ grant.status = .revoked) := by
    intro grant inside
    obtain ⟨old, held, rfl⟩ := Table.mem_update.mp inside
    refine ⟨old, held, ?_⟩
    split
    · exact ⟨rfl, .inr rfl⟩
    · exact ⟨rfl, .inl rfl⟩
  have asksSame {row : Gate} {grant old : Grant} (key : grant.key = old.key) :
      row.AsksFor grant ↔ row.AsksFor old := by
    obtain ⟨fleets, services⟩ := Prod.mk.inj key
    rw [Gate.AsksFor, Gate.AsksFor, fleets, services]
  refine ⟨?_, ?_, sound.actives, ?_, ?_⟩
  · rw [Tables.revokeGrant, Table.column_update Grant.key _ _ fun _ => by rfl]
    exact sound.keys
  · intro row member runless
    obtain ⟨type, grant, inside, asks, active⟩ := sound.cards row member runless
    refine ⟨type, _, Table.mem_update.mpr ⟨grant, inside, rfl⟩, ?_⟩
    split
    · exact ⟨asks, active⟩
    · exact ⟨asks, active⟩
  · intro grant inside approved
    obtain ⟨old, held, -, rfl | revoked⟩ := came grant inside
    · exact sound.approved grant held approved
    · exact nomatch approved.symm.trans revoked
  · intro row member grant inside asks
    obtain ⟨old, held, key, rfl | revoked⟩ := came grant inside
    · exact sound.decided row member grant held asks
    · refine ⟨fun _ => ?_, fun _ => revoked⟩
      rw [revoked]
      decide

theorem movesGrant_iff {row : Gate} {grant : Grant} :
    row.movesGrant grant = true ↔
      row.AsksFor grant ∧ row.gateType = kindIntegrationGrant ∧ grant.status ≠ .revoked := by
  simp only [Gate.movesGrant, Gate.AsksFor, Bool.and_eq_true, beq_iff_eq, bne_iff_ne,
    Option.isNone_iff_eq_none]
  constructor
  · rintro ⟨⟨⟨⟨fleet, service⟩, type⟩, runless⟩, stands⟩
    exact ⟨⟨runless, fleet.symm, service.symm⟩, type, stands⟩
  · rintro ⟨⟨runless, fleet, service⟩, type, stands⟩
    exact ⟨⟨⟨⟨fleet.symm, service.symm⟩, type⟩, runless⟩, stands⟩

theorem answered_status (outcome : Outcome) (now : Int) (grant : Grant) :
    (grant.answered outcome now).status =
      if outcome = .approved then .approved else .revoked := by
  cases outcome <;> rfl

theorem resolved_grants (gates : GatesSound uuid7 drawn t.gates) (sound : GrantsSound t)
    (a : Answering) (now : Int) : GrantsSound (t.resolveGate a now).1 := by
  have resolves : Transacts uuid7 (fun _ _ => True) drawn t drawn (t.resolveGate a now).1 :=
    .resolve a now
  have kept {grant : Grant} (held : grant ∈ t.grants) := grant_kept resolves held
  -- A grant stays, or a card among the rows this answer closed asks for it.
  have came : ∀ grant ∈ (t.resolveGate a now).1.grants, ∃ old ∈ t.grants, GrantMoves old grant ∧
      ((∀ row ∈ t.gates, a.picks row = true → (a.close now row).movesGrant old = false) ∧
          grant = old ∨
        (∃ row ∈ t.gates, a.picks row = true ∧ (a.close now row).movesGrant old = true) ∧
          grant = old.answered a.outcome now) := by
    intro grant inside
    obtain ⟨old, held, rfl⟩ := Table.mem_update.mp inside
    refine ⟨old, held, ?_⟩
    split
    · rename_i picked
      simp only [List.any_map, List.any_filter, List.any_eq_true, Function.comp_apply,
        Bool.and_eq_true] at picked
      obtain ⟨row, member, picks, moves⟩ := picked
      exact ⟨answered_moves (movesGrant_iff.mp moves).2.2, .inr ⟨⟨row, member, picks, moves⟩, rfl⟩⟩
    · rename_i unpicked
      simp only [List.any_map, List.any_filter, List.any_eq_true, Function.comp_apply,
        Bool.and_eq_true, not_exists, not_and] at unpicked
      exact ⟨.stays old, .inl ⟨fun row member picks => by simpa using unpicked row member picks,
        rfl⟩⟩
  refine ⟨?_, ?_, sound.actives.sublist (actives_close _), ?_, ?_⟩
  · rw [Tables.resolveGate, Table.column_update Grant.key _ _ fun grant => by
      cases a.outcome <;> rfl]
    exact sound.keys
  · intro row member runless
    obtain ⟨old, held, event, kind, asks, moved⟩ := card_of_closed member
    obtain ⟨type, grant, inside, asked, active⟩ := sound.cards old held (event.symm.trans runless)
    obtain ⟨new, stands, on⟩ := kept inside
    refine ⟨kind.trans type, new, stands, on.asksFor.mpr ((asks grant).mpr asked), fun still => ?_⟩
    rcases moved with ⟨-, -, closed⟩ | ⟨-, rfl⟩
    · rw [closed] at still
      exact nomatch still
    · rw [on.id]
      exact active still
  · intro grant inside approved
    obtain ⟨old, held, on, ⟨-, rfl⟩ | ⟨⟨row, member, picks, moves⟩, rfl⟩⟩ := came grant inside
    · obtain ⟨row, member, asks, stands⟩ := sound.approved grant held approved
      exact ⟨row, kept_of_closed member ((gates.marked row member).answered stands (by decide))
        fun _ => Answering.pending_of_picks, asks, stands⟩
    · refine ⟨a.close now row, Table.mem_update.mpr ⟨row, member, by rw [if_pos picks]⟩,
        on.asksFor.mpr (movesGrant_iff.mp moves).1, ?_⟩
      rw [answered_status] at approved
      by_cases said : a.outcome = .approved
      · rw [Answering.close, said]
        rfl
      · rw [if_neg said] at approved
        exact nomatch approved
  · intro row member grant inside asks
    obtain ⟨old, held, event, kind, same, moved⟩ := card_of_closed member
    obtain ⟨prior, had, on, change⟩ := came grant inside
    have asked : old.AsksFor prior := (same prior).mp (on.asksFor.mp asks)
    rcases moved with ⟨picks, closed, -⟩ | ⟨-, rfl⟩
    · have type := (sound.cards old held asked.1).1
      by_cases taken : prior.status = .revoked
      · have stays := on.revoked taken
        refine ⟨fun _ => ?_, fun _ => stays⟩
        rw [stays]
        decide
      · -- The card asks for a grant that stands, so its answer is the grant's.
        have moves : (a.close now old).movesGrant prior = true :=
          movesGrant_iff.mpr ⟨asked, type, taken⟩
        rcases change with ⟨none_moves, -⟩ | ⟨-, rfl⟩
        · rw [none_moves old held picks] at moves
          exact nomatch moves
        · rw [answered_status, closed]
          cases a.outcome <;> simp [Outcome.status]
    · obtain ⟨approved, denied⟩ := sound.decided row held prior had asked
      refine ⟨fun said => ?_, fun said => on.revoked (denied said)⟩
      cases stood : prior.status with
      | pending => exact absurd stood (approved said)
      | approved => exact on.approved stood
      | revoked =>
          rw [on.revoked stood]
          decide

theorem grants_sound (gates : GatesSound uuid7 drawn t.gates) (sound : GrantsSound t)
    (transacts : Transacts uuid7 owed drawn t next after) : GrantsSound after := by
  cases transacts with
  | idle | deliver | continueFrom | settle | park => exact same_grants sound rfl rfl
  | openEvent fleet event actor resumes =>
      unfold Tables.openEvent
      dsimp only
      split <;> exact same_grants sound rfl rfl
  | raise check stated claim now => exact raised_grants sound rfl rfl
  | resolve a now => exact resolved_grants gates sound a now
  | sweep now =>
      refine closed_grants gates sound (fun row picked => ?_) (by decide) rfl rfl
      exact ((Bool.and_eq_true _ _).mp picked).1
  | request fleet workspace wanted now => exact requested_grants sound _ _ _ _ _ _ _
  | revoke fleet grant now => exact revoked_grants sound fleet grant now
  | cancelSetup fleet now =>
      refine closed_grants gates sound (fun row picked => ?_) (by decide) rfl rfl
      simp only [Bool.and_eq_true] at picked
      exact picked.1.2

end Transactions

/-! ## Runs -/

def Gate.isOpenCard (fleet service : String) (row : Gate) : Bool :=
  row.event.isNone && row.isPending && row.fleet == fleet && row.service == some service

theorem openCards_le_one {t : Tables} (sound : GrantsSound t) (fleet service : String) :
    t.gates.countP (Gate.isOpenCard fleet service) ≤ 1 := by
  have bound : ∀ row ∈ t.gates, row.isOpenCard fleet service = true →
      ∃ grant ∈ t.grants, grant.key = (fleet, service) ∧ row.activeGrant = some grant.id := by
    intro row held opens
    simp only [Gate.isOpenCard, Bool.and_eq_true, beq_iff_eq, Option.isNone_iff_eq_none] at opens
    obtain ⟨⟨⟨runless, pending⟩, ofFleet⟩, ofService⟩ := opens
    obtain ⟨-, grant, inside, asks, active⟩ := sound.cards row held runless
    exact ⟨grant, inside, Prod.ext (asks.2.1.symm.trans ofFleet)
      (Option.some.inj (asks.2.2.symm.trans ofService)), active pending⟩
  by_cases asked : ∃ row ∈ t.gates, row.isOpenCard fleet service = true
  · obtain ⟨row, member, opens⟩ := asked
    obtain ⟨grant, inside, key, -⟩ := bound row member opens
    calc t.gates.countP (Gate.isOpenCard fleet service)
        ≤ t.gates.countP (fun other => other.activeGrant == some grant.id) := by
          apply List.countP_mono_left
          intro other held another
          obtain ⟨grant', inside', key', active⟩ := bound other held another
          have same := List.inj_on_of_nodup_map sound.keys inside' inside (key'.trans key.symm)
          rw [active, same]
          exact beq_self_eq_true _
      _ = (t.gates.filterMap Gate.activeGrant).count grant.id := List.count_filterMap.symm
      _ ≤ 1 := List.nodup_iff_count_le_one.mp sound.actives grant.id
  · have none_open : t.gates.countP (Gate.isOpenCard fleet service) = 0 := by
      rw [List.countP_eq_zero]
      exact fun row member opens => asked ⟨row, member, opens⟩
    omega

theorem holdApproved_iff {t : Tables} {fleet service : String} :
    t.holdApproved fleet service = true ↔
      ∃ grant ∈ t.grants, grant.key = (fleet, service) ∧ grant.status = .approved := by
  simp only [Tables.holdApproved, List.any_eq_true, Bool.and_eq_true, beq_iff_eq, Grant.key,
    Prod.mk.injEq]

theorem holdApproved_eq_false {t : Tables} (sound : GrantsSound t) {grant : Grant}
    (held : grant ∈ t.grants) (refused : grant.status ≠ .approved) :
    t.holdApproved grant.fleet grant.service = false := by
  rw [Bool.eq_false_iff, Ne, holdApproved_iff]
  rintro ⟨other, inside, key, approved⟩
  have same := List.inj_on_of_nodup_map sound.keys inside held key
  exact refused (same ▸ approved)

section Desks

variable (fromStr : String → Option Json) (uuid7 : Nat → String)

theorem poll_grants (d : Desk) (slot : Nat) (io : Io) (now : Int) :
    (d.poll fromStr uuid7 slot io now).tables.grants = d.tables.grants := by
  unfold Desk.poll
  split
  · rfl
  · split <;> first
      | rfl
      | (split <;> rfl)
      | (dsimp only; split <;> rfl)

theorem openEvent_grants (t : Tables) (fleet event actor : String) (resumes : Option String) :
    (t.openEvent fleet event actor resumes).1.grants = t.grants := by
  unfold Tables.openEvent
  dsimp only
  split <;> rfl

theorem continuationOf_grants (d : Desk) (resolved : Resolved) (event : String) :
    (d.continuationOf uuid7 resolved event).1.tables.grants = d.tables.grants := by
  unfold Desk.continuationOf
  split <;> rfl

theorem answer_grants (d : Desk) (slot : Nat) (io : Io) (now : Int) :
    (d.answer uuid7 slot io now).tables.grants = d.tables.grants ∨
      ∃ a, d.calls[slot]? = some ⟨a, .resolving⟩ ∧
        (d.answer uuid7 slot io now).tables = (d.tables.resolveGate a now).1 := by
  unfold Desk.answer
  split
  · exact .inl rfl
  · rename_i a phase found
    split <;> first
      | exact .inl rfl
      | exact .inr ⟨a, found, rfl⟩
      | exact .inl (continuationOf_grants uuid7 _ _ _)
      | exact .inl (openEvent_grants _ _ _ _ _)
      | (split <;> exact .inl rfl)
      | (dsimp only; split <;> exact .inr ⟨a, found, rfl⟩)

end Desks

inductive Desk.Changes (d : Desk) : Event → Prop where
  | request (fleet workspace : String) (wanted : Wanted) (now : Int) :
      d.Changes (.request fleet workspace wanted now)
  | revoke (fleet grant : String) (now : Int) : d.Changes (.revoke fleet grant now)
  | answer {slot : Nat} {a : Answering} {row : Gate} (io : Io) (now : Int)
      (resolving : d.calls[slot]? = some ⟨a, .resolving⟩) (held : row ∈ d.tables.gates)
      (picks : a.picks row = true) (runless : row.event = none) :
      d.Changes (.answer slot io now)

structure GrantsStand (t : Taken Desk Event) : Prop where
  /-- A grant stays, and moves from pending to approved to revoked, never back. -/
  moves : ∀ old ∈ t.before.tables.grants, ∃ new ∈ t.after.tables.grants, GrantMoves old new
  /-- A fleet that may mint was allowed to, on a card that holds no run. -/
  holds : ∀ fleet service, t.after.tables.holdApproved fleet service = true →
    ∃ row ∈ t.after.tables.gates, row.event = none ∧ row.gateType = kindIntegrationGrant ∧
      row.fleet = fleet ∧ row.service = some service ∧ row.status = .approved
  /-- It begins to be allowed by a yes to an open card, in the statement of that answer. -/
  begins : ∀ fleet service, t.before.tables.holdApproved fleet service = false →
    t.after.tables.holdApproved fleet service = true →
      ∃ slot io now a, t.event = .answer slot io now ∧
        t.before.calls[slot]? = some ⟨a, .resolving⟩ ∧ a.outcome = .approved ∧
          ∃ row ∈ t.before.tables.gates, a.picks row = true ∧
            row.isOpenCard fleet service = true
  /-- A question about one event moves no grant, whatever kind it names. -/
  changes : t.after.tables.grants = t.before.tables.grants ∨ t.before.Changes t.event
  /-- What was refused or taken back is not allowed again. -/
  refused : ∀ row ∈ t.before.tables.gates, row.event = none → row.status = .denied →
    ∀ service, row.service = some service → t.after.tables.holdApproved row.fleet service = false
  revoked : ∀ grant ∈ t.before.tables.grants, grant.status = .revoked →
    t.after.tables.holdApproved grant.fleet grant.service = false
  alone : ∀ fleet service, t.after.tables.gates.countP (Gate.isOpenCard fleet service) ≤ 1

section Stands

variable (fromStr : String → Option Json) {uuid7 : Nat → String}

theorem step_grants_kept (uuid7 : Nat → String) (d : Desk) (event : Event) :
    (d.step fromStr uuid7 event).tables.grants = d.tables.grants ∨
      (∃ fleet workspace wanted now, event = .request fleet workspace wanted now) ∨
      (∃ fleet grant now, event = .revoke fleet grant now) ∨
      ∃ slot io now a, event = .answer slot io now ∧ d.calls[slot]? = some ⟨a, .resolving⟩ ∧
        (d.step fromStr uuid7 event).tables = (d.tables.resolveGate a now).1 := by
  cases event with
  | begin | resolve | sweep | cancelSetup | forget | garble | unmirror | windowEnds | resume
  | deliver | settled | park => exact .inl rfl
  | poll slot io now => exact .inl (poll_grants fromStr uuid7 d slot io now)
  | mirror action text =>
      refine .inl ?_
      simp only [Desk.step]
      split <;> rfl
  | lease id =>
      refine .inl ?_
      simp only [Desk.step, Desk.leaseOpens]
      split
      · rfl
      · exact openEvent_grants _ _ _ _ _
  | request fleet workspace wanted now => exact .inr (.inl ⟨fleet, workspace, wanted, now, rfl⟩)
  | revoke fleet grant now => exact .inr (.inr (.inl ⟨fleet, grant, now, rfl⟩))
  | answer slot io now =>
      rcases answer_grants uuid7 d slot io now with same | ⟨a, found, moved⟩
      · exact .inl same
      · exact .inr (.inr (.inr ⟨slot, io, now, a, rfl, found, moved⟩))

theorem step_changes (d : Desk) (event : Event) :
    (d.step fromStr uuid7 event).tables.grants = d.tables.grants ∨ d.Changes event := by
  rcases step_grants_kept fromStr uuid7 d event with same |
    ⟨fleet, workspace, wanted, now, rfl⟩ | ⟨fleet, grant, now, rfl⟩ |
    ⟨slot, io, now, a, rfl, found, moved⟩
  · exact .inl same
  · exact .inr (.request fleet workspace wanted now)
  · exact .inr (.revoke fleet grant now)
  · by_cases card : ∃ row ∈ d.tables.gates, a.picks row = true ∧ row.event = none
    · obtain ⟨row, held, picks, runless⟩ := card
      exact .inr (.answer io now found held picks runless)
    · -- Every gate it answers holds a run, and such a gate moves no grant.
      refine .inl ?_
      rw [moved]
      apply Table.update_none
      intro grant _
      rw [List.any_eq_false]
      intro row won moves
      obtain ⟨old, picked, rfl⟩ := List.mem_map.mp won
      obtain ⟨held, picks⟩ := List.mem_filter.mp picked
      exact card ⟨old, held, picks, (movesGrant_iff.mp moves).1.1⟩

theorem holdApproved_begins {d : Desk} {event : Event} {fleet service : String}
    (before : d.tables.holdApproved fleet service = false)
    (after : (d.step fromStr uuid7 event).tables.holdApproved fleet service = true) :
    ∃ slot io now a, event = .answer slot io now ∧ d.calls[slot]? = some ⟨a, .resolving⟩ ∧
      a.outcome = .approved ∧ ∃ row ∈ d.tables.gates, a.picks row = true ∧
        row.isOpenCard fleet service = true := by
  have fresh {grant : Grant} (held : grant ∈ d.tables.grants) (key : grant.key = (fleet, service))
      (approved : grant.status = .approved) : False := by
    rw [holdApproved_iff.mpr ⟨grant, held, key, approved⟩] at before
    cases before
  obtain ⟨grant, inside, key, approved⟩ := holdApproved_iff.mp after
  rcases step_grants_kept fromStr uuid7 d event with same | ⟨fleet', workspace, wanted, now, rfl⟩ |
    ⟨fleet', id, now, rfl⟩ | ⟨slot, io, now, a, rfl, found, moved⟩
  · rw [same] at inside
    exact (fresh inside key approved).elim
  · simp only [Desk.step] at inside
    rw [request_grants, Tables.ensureGrant] at inside
    split at inside
    · exact (fresh inside key approved).elim
    · rcases List.mem_append.mp inside with old | new
      · exact (fresh old key approved).elim
      · rw [List.mem_singleton.mp new] at approved
        cases approved
  · obtain ⟨old, held, rfl⟩ := Table.mem_update.mp inside
    split at approved
    · cases approved
    · rename_i unpicked
      rw [if_neg unpicked] at key
      exact (fresh held key approved).elim
  · rw [moved] at inside
    obtain ⟨old, held, rfl⟩ := Table.mem_update.mp inside
    split at approved
    · rename_i picked
      rw [if_pos picked] at key
      simp only [List.any_map, List.any_filter, List.any_eq_true, Function.comp_apply,
        Bool.and_eq_true] at picked
      obtain ⟨row, member, picks, moves⟩ := picked
      obtain ⟨⟨runless, ofFleet, ofService⟩, -⟩ := movesGrant_iff.mp moves
      have sameKey : old.key = (fleet, service) := by
        rw [← key]
        cases a.outcome <;> rfl
      obtain ⟨fleets, services⟩ := Prod.mk.inj sameKey
      refine ⟨slot, io, now, a, rfl, found, ?_, row, member, picks, ?_⟩
      · rw [answered_status] at approved
        by_contra denied
        rw [if_neg denied] at approved
        cases approved
      · simp only [Gate.isOpenCard, Bool.and_eq_true, beq_iff_eq, Option.isNone_iff_eq_none]
        exact ⟨⟨⟨runless, Answering.pending_of_picks picks⟩, ofFleet.trans fleets⟩,
          ofService.trans (congrArg some services)⟩
    · rename_i unpicked
      rw [if_neg unpicked] at key
      exact (fresh held key approved).elim

theorem step_grants {d : Desk} (sound : d.Sound uuid7)
    (grants : GrantsSound d.tables) (event : Event) :
    GrantsSound (d.step fromStr uuid7 event).tables ∧
      GrantsStand ⟨d, event, d.step fromStr uuid7 event⟩ := by
  have transacts := step_transacts fromStr uuid7 d event
  have after := grants_sound sound.gates grants transacts
  have taken : ∀ grant ∈ d.tables.grants, grant.status = .revoked →
      (d.step fromStr uuid7 event).tables.holdApproved grant.fleet grant.service = false := by
    intro grant held revoked
    obtain ⟨new, inside, on⟩ := grant_kept transacts held
    rw [← on.fleet, ← on.service]
    apply holdApproved_eq_false after inside
    rw [on.revoked revoked]
    decide
  refine ⟨after, fun old held => grant_kept transacts held, ?_,
    fun fleet service => holdApproved_begins fromStr, step_changes fromStr d event, ?_, taken,
    fun fleet service => openCards_le_one after fleet service⟩
  · intro fleet service allowed
    obtain ⟨grant, inside, key, approved⟩ := holdApproved_iff.mp allowed
    obtain ⟨fleets, services⟩ := Prod.mk.inj key
    obtain ⟨row, member, asks, stands⟩ := after.approved grant inside approved
    exact ⟨row, member, asks.1, (after.cards row member asks.1).1, asks.2.1.trans fleets,
      asks.2.2.trans (congrArg some services), stands⟩
  · intro row member runless denied service named
    obtain ⟨-, grant, inside, asks, -⟩ := grants.cards row member runless
    have same : grant.service = service := Option.some.inj (asks.2.2.symm.trans named)
    rw [asks.2.1, ← same]
    exact taken grant inside ((grants.decided row member grant inside asks).2 denied)

theorem start_grants : GrantsSound Desk.start.tables :=
  ⟨List.nodup_nil, List.forall_mem_nil _, List.nodup_nil, List.forall_mem_nil _,
    List.forall_mem_nil _⟩

/-- In every run a fleet may mint against an integration only from the yes to the one open
card raised for it until the grant is taken back, which is for good; no question about an
event moves a grant. -/
theorem grants_stand (distinct : Function.Injective uuid7) (events : List Event) :
    ∀ t ∈ taken (Desk.step fromStr uuid7) Desk.start events, GrantsStand t := by
  intro t member
  obtain ⟨held, steps⟩ := Run.taken_step
    (fun d event (held : Desk.Sound uuid7 d ∧ GrantsSound d.tables) =>
      ⟨step_sound fromStr distinct held.1 event, (step_grants fromStr held.1 held.2 event).1⟩)
    ⟨start_sound, start_grants⟩ t member
  have stands := (step_grants fromStr held.1 held.2 t.event).2
  rw [← steps] at stands
  exact stands

/-- A grant is asked for twice, approved once and taken back; asking again raises nothing. -/
def granted : List Event :=
  [.request "fleet" "workspace" ⟨"github", "token", .install⟩ 0,
    .request "fleet" "workspace" ⟨"github", "token", .park⟩ 1,
    .resolve ⟨serial 2, .approved, "first", "", ""⟩, .answer 0 .unheard 2,
    .revoke "fleet" (serial 0) 3, .request "fleet" "workspace" ⟨"github", "token", .park⟩ 4]

theorem grants_stand_granted :
    (∃ t ∈ taken (Desk.step (fun _ => none) serial) Desk.start granted,
      t.before.tables.holdApproved "fleet" "github" = false ∧
        t.after.tables.holdApproved "fleet" "github" = true ∧ GrantsStand t) ∧
    ∃ t ∈ taken (Desk.step (fun _ => none) serial) Desk.start granted,
      t.before.tables.grants.map Grant.status = [.revoked] ∧
        t.after.tables.gates.map Gate.status = [.approved] ∧ GrantsStand t := by
  have stands := grants_stand (fun _ => none) serial_injective granted
  have yes := List.mem_of_getElem? (i := 3)
    (l := taken (Desk.step (fun _ => none) serial) Desk.start granted) rfl
  have last := List.mem_of_getElem? (i := 5)
    (l := taken (Desk.step (fun _ => none) serial) Desk.start granted) rfl
  refine ⟨⟨_, yes, ?_, ?_, stands _ yes⟩, ⟨_, last, ?_, ?_, stands _ last⟩⟩
  all_goals decide

end Stands

end Agentsfleet.Approval
