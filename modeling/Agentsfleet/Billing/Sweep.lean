import Agentsfleet.Billing.Usage
import Agentsfleet.Core.Bounds
import Agentsfleet.Core.Id
import Agentsfleet.Library.Table
import Mathlib.Data.Prod.Lex
import Mathlib.Data.String.Basic

/-!
# The usage log read back

The lines that committed without a settlement, a page at a time, oldest first: each page is
handed to the biller as one settlement a work and pricing header.
-/

set_option autoImplicit false

namespace Agentsfleet.Billing

open Agentsfleet.Core
open Agentsfleet.Library

/-! ## Stored rows -/

structure RowMalformed where
  table : String
  column : String
deriving DecidableEq

def tableLines : String := "billing.usage_lines"

structure UnsettledRow where
  workType : String
  workId : String
  seq : Int
  tenantId : String
  workspaceId : String
  fleetId : Option String
  fleetName : Option String
  eventId : Option String
  provider : String
  model : String
  posture : String
  requestedAt : Int
  inputTokenCount : Int
  cachedInputTokenCount : Int
  cacheWriteTokenCount : Int
  cacheWrite5mTokenCount : Int
  cacheWrite1hTokenCount : Int
  outputTokenCount : Int
  runtimeMs : Int
  priceId : Option String
  unpricedTokenCount : Int
  chargedNanos : Int
  loggedAt : Int
  lineId : String
deriving DecidableEq

def Posture.parse (stored : String) : Option Posture :=
  if stored = "platform" then some .platform
  else if stored = "self_managed" then some .selfManaged
  else none

def count (stored : Int) : UInt32 :=
  if 0 ≤ stored ∧ stored ≤ u32Max then .ofNat stored.toNat else .ofNat u32Max

/-- `Uuid7::parse` of a column. -/
def storedId (column text : String) : Except RowMalformed String :=
  match Uuid7.parse text with
  | some id => .ok id.text
  | none => .error ⟨tableLines, column⟩

namespace UnsettledRow

abbrev Identity := String ×ₗ String ×ₗ String ×ₗ String ×ₗ String

def identity (row : UnsettledRow) : Identity :=
  toLex (row.workType, toLex (row.workId, toLex (row.provider, toLex (row.model, row.posture))))

/-- What `grouped` sorts by. -/
def order (row : UnsettledRow) : Identity ×ₗ Int := toLex (row.identity, row.seq)

def usage (row : UnsettledRow) : UsageLine where
  seq := (count row.seq).toNat
  instant := row.requestedAt
  inputTokens := count row.inputTokenCount
  cachedInputTokens := count row.cachedInputTokenCount
  cacheWriteTokens := count row.cacheWriteTokenCount
  cacheWrite5mTokens := count row.cacheWrite5mTokenCount
  cacheWrite1hTokens := count row.cacheWrite1hTokenCount
  outputTokens := count row.outputTokenCount
  runtimeMs := count row.runtimeMs

def price (row : UnsettledRow) : Except RowMalformed (Option String) :=
  match row.priceId with
  | none => .ok none
  | some id => (storedId "platform_model_price_id" id).map some

def line (row : UnsettledRow) : Except RowMalformed RatedLine := do
  let price ← row.price
  return {
    usage := row.usage, price, charged := row.chargedNanos
    unpricedTokens := row.unpricedTokenCount.toNat }

def work (row : UnsettledRow) : Option (String → WorkKey) :=
  if row.workType = "fleet_lease" then some .fleetLease
  else if row.workType = "authoring_attempt" then some .authoringAttempt
  else none

def attribution (row : UnsettledRow) : Except RowMalformed Attribution :=
  match row.fleetId, row.eventId with
  | some fleet, some eventId =>
      (storedId "fleet_id" fleet).map fun fleet => .fleet fleet (row.fleetName.getD "") eventId
  | _, _ => .ok .setupChat

/-- A settlement for this row's work, retaining its complete priced group. -/
def settlement (row : UnsettledRow) (work : String → WorkKey) (lines : List RatedLine) :
    Except RowMalformed Settlement := do
  let attribution ← row.attribution
  let workId ← storedId "work_id" row.workId
  let tenant ← storedId "tenant_id" row.tenantId
  let workspace ← storedId "workspace_id" row.workspaceId
  return {
    work := work workId, payer := ⟨tenant, workspace⟩, attribution, provider := row.provider
    model := row.model, posture := (Posture.parse row.posture).getD .platform, lines }

end UnsettledRow

/-! ## Grouping -/

def nextLines (identity : UnsettledRow.Identity) :
    List UnsettledRow → Except RowMalformed (List RatedLine × List UnsettledRow)
  | [] => .ok ([], [])
  | next :: rest =>
      if next.identity = identity then do
        let line ← next.line
        let (lines, rest) ← nextLines identity rest
        return (line :: lines, rest)
      else .ok ([], next :: rest)

/-- The loop of `grouped`, at most one turn a row. -/
def groupLoop : Nat → List UnsettledRow → Except RowMalformed (List Settlement)
  | 0, _ => .ok []
  | _ + 1, [] => .ok []
  | turns + 1, row :: rest =>
      match row.work with
      | none => groupLoop turns rest
      | some work => do
          let line ← row.line
          let (lines, rest) ← nextLines row.identity rest
          let settlement ← row.settlement work (line :: lines)
          let settlements ← groupLoop turns rest
          return settlement :: settlements

def grouped (rows : List UnsettledRow) : Except RowMalformed (List Settlement) :=
  let rows := rows.mergeSort fun left right => decide (left.order ≤ right.order)
  groupLoop rows.length rows

/-! ## Paging -/

structure Resume where
  loggedAt : Int
  lineId : String
deriving DecidableEq

def UnsettledRow.resume (row : UnsettledRow) : Resume := ⟨row.loggedAt, row.lineId⟩

def Resume.position (resume : Resume) : Int ×ₗ String := toLex (resume.loggedAt, resume.lineId)

/-- The row test of `select_unsettled.sql`. -/
def UnsettledRow.isAfter (row : UnsettledRow) : Option Resume → Bool
  | none => true
  | some resume =>
      decide (resume.loggedAt < row.loggedAt) ||
        decide (row.loggedAt = resume.loggedAt) && decide (resume.lineId < row.lineId)

/-- `select_unsettled.sql` over the unsettled lines of the log. -/
def selectUnsettled (limit : Nat) (after : Option Resume) (log : List UnsettledRow) :
    List UnsettledRow :=
  Table.select (·.isAfter after) (·.resume.position) limit log

/-- Up to `limit` unsettled lines after `after` as settlements, and where the next read
resumes when this one filled its limit. -/
def unsettled (limit : Nat) (after : Option Resume) (log : List UnsettledRow) :
    Except RowMalformed (List Settlement × Option Resume) :=
  let rows := selectUnsettled limit after log
  let resume := if limit ≤ rows.length then rows.getLast?.map (·.resume) else none
  (grouped rows).map fun settlements => (settlements, resume)

/-- One lap of passes, each resuming after the last line the one ahead of it read.  Lines up
to there may have left the log since: those the biller took did, those in `stays` it refused. -/
def lap (limit : Nat) (stays : UnsettledRow → Bool) :
    Nat → Option Resume → List UnsettledRow → Except RowMalformed (List Settlement)
  | 0, _, _ => .ok []
  | passes + 1, after, log => do
      let (settlements, resume) ← unsettled limit after log
      match resume with
      | none => return settlements
      | some resume =>
          let rest ← lap limit stays passes (some resume)
            (log.filter fun row => row.isAfter (some resume) || stays row)
          return settlements ++ rest

/-! ## What a grouping settles -/

/-- The identifiers a row's settlement reads, by column. -/
def UnsettledRow.ids (row : UnsettledRow) : List (String × String) :=
  (row.priceId.map fun id => ("platform_model_price_id", id)).toList ++
    ((match row.fleetId, row.eventId with
      | some fleet, some _ => [("fleet_id", fleet)]
      | _, _ => []) ++
    [("work_id", row.workId), ("tenant_id", row.tenantId), ("workspace_id", row.workspaceId)])

/-- Every identifier of the row is one, as whoever logged it wrote it. -/
def UnsettledRow.Formed (row : UnsettledRow) : Prop :=
  ∀ stored ∈ row.ids, (Uuid7.parse stored.2).isSome = true

instance (row : UnsettledRow) : Decidable row.Formed :=
  inferInstanceAs (Decidable (∀ stored ∈ row.ids, _))

def UnsettledRow.Refuses (row : UnsettledRow) (refused : RowMalformed) : Prop :=
  ∃ stored ∈ row.ids, Uuid7.parse stored.2 = none ∧ refused = ⟨tableLines, stored.1⟩

structure Settles (rows : List UnsettledRow) (settlement : Settlement) : Prop where
  header : ∃ row ∈ rows, ∃ work, row.work = some work ∧
    row.settlement work settlement.lines = .ok settlement ∧
    ∀ other ∈ rows, other.identity = row.identity
  ordered : rows.Pairwise fun left right => left.seq ≤ right.seq
  lines : List.Forall₂ (fun row line => row.line = .ok line) rows settlement.lines

def known (rows : List UnsettledRow) : List UnsettledRow := rows.filter fun row => row.work.isSome

def Covers (rows : List UnsettledRow) (settlements : List Settlement) : Prop :=
  ∃ groups, List.Forall₂ Settles groups settlements ∧ groups.flatten.Perm (known rows)

def OneEach (rows : List UnsettledRow) (settlements : List Settlement) : Prop :=
  ∃ groups, List.Forall₂ Settles groups settlements ∧ groups.flatten.Perm (known rows) ∧
    groups.Pairwise fun left right => ∀ a ∈ left, ∀ b ∈ right, a.identity ≠ b.identity

theorem OneEach.covers {rows : List UnsettledRow} {settlements : List Settlement}
    (one : OneEach rows settlements) : Covers rows settlements := by
  obtain ⟨groups, settles, perm, -⟩ := one
  exact ⟨groups, settles, perm⟩

theorem Covers.append {first second : List UnsettledRow} {ahead behind : List Settlement}
    (left : Covers first ahead) (right : Covers second behind) :
    Covers (first ++ second) (ahead ++ behind) := by
  obtain ⟨groups, settles, perm⟩ := left
  obtain ⟨more, others, rest⟩ := right
  refine ⟨groups ++ more, List.rel_append settles others, ?_⟩
  rw [List.flatten_append, known, List.filter_append]
  exact perm.append rest

theorem Covers.perm {rows others : List UnsettledRow} {settlements : List Settlement}
    (covers : Covers rows settlements) (perm : rows.Perm others) : Covers others settlements := by
  obtain ⟨groups, settles, flat⟩ := covers
  exact ⟨groups, settles, flat.trans (perm.filter _)⟩

theorem storedId_error {column text : String} {refused : RowMalformed}
    (failed : storedId column text = .error refused) :
    Uuid7.parse text = none ∧ refused = ⟨tableLines, column⟩ := by
  unfold storedId at failed
  cases parsed : Uuid7.parse text with
  | some id =>
      rw [parsed] at failed
      cases failed
  | none =>
      rw [parsed] at failed
      cases failed
      exact ⟨rfl, rfl⟩

theorem map_eq_error {A B : Type} {first : Except RowMalformed A} {next : A → B}
    {refused : RowMalformed} (failed : first.map next = .error refused) :
    first = .error refused := by
  cases first with
  | error other => cases failed; rfl
  | ok middle => cases failed

namespace UnsettledRow

theorem line_error {row : UnsettledRow} {refused : RowMalformed}
    (failed : row.line = .error refused) : row.Refuses refused := by
  unfold line at failed
  rcases bind_eq_error.mp failed with failed | ⟨_, -, failed⟩
  · unfold price at failed
    cases id : row.priceId with
    | none =>
        rw [id] at failed
        cases failed
    | some text =>
        rw [id] at failed
        obtain ⟨none, same⟩ := storedId_error (map_eq_error failed)
        exact ⟨("platform_model_price_id", text), by simp [ids, id], none, same⟩
  · cases failed

theorem settlement_error {row : UnsettledRow} {work : String → WorkKey} {lines : List RatedLine}
    {refused : RowMalformed} (failed : row.settlement work lines = .error refused) :
    row.Refuses refused := by
  unfold settlement at failed
  rcases bind_eq_error.mp failed with failed | ⟨attributed, -, failed⟩
  · unfold attribution at failed
    cases fleet : row.fleetId with
    | none =>
        rw [fleet] at failed
        cases failed
    | some fleetId =>
        cases event : row.eventId with
        | none =>
            rw [fleet, event] at failed
            cases failed
        | some eventId =>
            rw [fleet, event] at failed
            obtain ⟨none, same⟩ := storedId_error (map_eq_error failed)
            exact ⟨("fleet_id", fleetId), by simp [ids, fleet, event], none, same⟩
  · rcases bind_eq_error.mp failed with failed | ⟨_, -, failed⟩
    · obtain ⟨none, same⟩ := storedId_error failed
      exact ⟨("work_id", row.workId), by simp [ids], none, same⟩
    · rcases bind_eq_error.mp failed with failed | ⟨_, -, failed⟩
      · obtain ⟨none, same⟩ := storedId_error failed
        exact ⟨("tenant_id", row.tenantId), by simp [ids], none, same⟩
      · rcases bind_eq_error.mp failed with failed | ⟨_, -, failed⟩
        · obtain ⟨none, same⟩ := storedId_error failed
          exact ⟨("workspace_id", row.workspaceId), by simp [ids], none, same⟩
        · cases failed

theorem settlement_lines {row : UnsettledRow} {work : String → WorkKey} {lines : List RatedLine}
    {settled : Settlement} (ok : row.settlement work lines = .ok settled) :
    settled.lines = lines := by
  unfold settlement at ok
  obtain ⟨_, -, ok⟩ := bind_eq_ok.mp ok
  obtain ⟨_, -, ok⟩ := bind_eq_ok.mp ok
  obtain ⟨_, -, ok⟩ := bind_eq_ok.mp ok
  obtain ⟨_, -, ok⟩ := bind_eq_ok.mp ok
  cases ok
  rfl

theorem Formed.refuses {row : UnsettledRow} (formed : row.Formed) (refused : RowMalformed) :
    ¬ row.Refuses refused := by
  rintro ⟨stored, member, none, -⟩
  have := formed stored member
  rw [none] at this
  cases this

theorem work_congr {row other : UnsettledRow} (same : other.identity = row.identity) :
    other.work = row.work := by
  have first : other.workType = row.workType := congrArg (fun id => (ofLex id).1) same
  unfold work
  rw [first]

end UnsettledRow

theorem nextLines_ok {identity : UnsettledRow.Identity} {rows rest : List UnsettledRow}
    {lines : List RatedLine} (ok : nextLines identity rows = .ok (lines, rest)) :
    ∃ group, rows = group ++ rest ∧ (∀ row ∈ group, row.identity = identity) ∧
      List.Forall₂ (fun row line => row.line = .ok line) group lines ∧
      ∀ next ∈ rest.head?, next.identity ≠ identity := by
  induction rows generalizing lines rest with
  | nil =>
      cases ok
      exact ⟨[], rfl, by simp, .nil, by simp⟩
  | cons next behind ih =>
      unfold nextLines at ok
      by_cases same : next.identity = identity
      · rw [if_pos same] at ok
        obtain ⟨line, priced, ok⟩ := bind_eq_ok.mp ok
        obtain ⟨⟨more, left⟩, taken, ok⟩ := bind_eq_ok.mp ok
        cases ok
        obtain ⟨group, rfl, shared, priceds, other⟩ := ih taken
        exact ⟨next :: group, rfl, List.forall_mem_cons.mpr ⟨same, shared⟩, .cons priced priceds,
          other⟩
      · rw [if_neg same] at ok
        cases ok
        exact ⟨[], rfl, by simp, .nil, by simpa using same⟩

theorem nextLines_error {identity : UnsettledRow.Identity} {rows : List UnsettledRow}
    {refused : RowMalformed} (failed : nextLines identity rows = .error refused) :
    ∃ row ∈ rows, row.identity = identity ∧ row.Refuses refused := by
  induction rows with
  | nil => cases failed
  | cons next behind ih =>
      unfold nextLines at failed
      by_cases same : next.identity = identity
      · rw [if_pos same] at failed
        rcases bind_eq_error.mp failed with failed | ⟨line, -, failed⟩
        · exact ⟨next, List.mem_cons_self, same, UnsettledRow.line_error failed⟩
        · rcases bind_eq_error.mp failed with failed | ⟨_, -, failed⟩
          · obtain ⟨row, member, shared, refuses⟩ := ih failed
            exact ⟨row, List.mem_cons_of_mem _ member, shared, refuses⟩
          · cases failed
      · rw [if_neg same] at failed
        cases failed

theorem groupLoop_error {turns : Nat} {rows : List UnsettledRow} {refused : RowMalformed}
    (failed : groupLoop turns rows = .error refused) :
    ∃ row ∈ rows, row.work.isSome = true ∧ row.Refuses refused := by
  induction turns generalizing rows with
  | zero => cases failed
  | succ turns ih =>
      cases rows with
      | nil => cases failed
      | cons row rest =>
          unfold groupLoop at failed
          cases kind : row.work with
          | none =>
              rw [kind] at failed
              obtain ⟨other, member, refuses⟩ := ih failed
              exact ⟨other, List.mem_cons_of_mem _ member, refuses⟩
          | some work =>
              rw [kind] at failed
              have knows : row.work.isSome = true := by rw [kind]; rfl
              rcases bind_eq_error.mp failed with failed | ⟨line, -, failed⟩
              · exact ⟨row, List.mem_cons_self, knows, UnsettledRow.line_error failed⟩
              · rcases bind_eq_error.mp failed with failed | ⟨⟨lines, behind⟩, taken, failed⟩
                · obtain ⟨other, member, shared, refuses⟩ := nextLines_error failed
                  refine ⟨other, List.mem_cons_of_mem _ member, ?_, refuses⟩
                  rw [UnsettledRow.work_congr shared]
                  exact knows
                · rcases bind_eq_error.mp failed with failed | ⟨_, -, failed⟩
                  · exact ⟨row, List.mem_cons_self, knows, UnsettledRow.settlement_error failed⟩
                  · rcases bind_eq_error.mp failed with later | ⟨_, -, failed⟩
                    · obtain ⟨group, whole, -⟩ := nextLines_ok taken
                      obtain ⟨other, member, refuses⟩ := ih later
                      refine ⟨other, List.mem_cons_of_mem _ ?_, refuses⟩
                      rw [whole]
                      exact List.mem_append_right _ member
                    · cases failed

/-! ## Rows in the order of their identities -/

theorem order_le {left right : UnsettledRow} :
    left.order ≤ right.order ↔
      left.identity < right.identity ∨ left.identity = right.identity ∧ left.seq ≤ right.seq :=
  Prod.Lex.toLex_le_toLex

theorem identity_le {left right : UnsettledRow} (sorted : left.order ≤ right.order) :
    left.identity ≤ right.identity := by
  rcases order_le.mp sorted with before | ⟨same, -⟩
  · exact le_of_lt before
  · exact le_of_eq same

theorem identity_passed {row : UnsettledRow} {behind : List UnsettledRow}
    (sorted : (row :: behind).Pairwise fun left right => left.order ≤ right.order)
    (other : ∀ next ∈ behind.head?, next.identity ≠ row.identity) :
    ∀ later ∈ behind, row.identity ≠ later.identity := by
  cases behind with
  | nil => exact fun later member => absurd member List.not_mem_nil
  | cons next rest =>
      obtain ⟨ahead, tail⟩ := List.pairwise_cons.mp sorted
      have apart : row.identity ≠ next.identity := Ne.symm (other next rfl)
      have before := lt_of_le_of_ne (identity_le (ahead next List.mem_cons_self)) apart
      intro later member
      rcases List.mem_cons.mp member with rfl | further
      · exact apart
      · have after := identity_le ((List.pairwise_cons.mp tail).1 later further)
        exact ne_of_lt (lt_of_lt_of_le before after)

theorem known_of_identity {row : UnsettledRow} {group : List UnsettledRow}
    (kind : row.work.isSome = true) (shared : ∀ other ∈ group, other.identity = row.identity) :
    known group = group := by
  apply List.filter_eq_self.mpr
  intro other member
  rw [UnsettledRow.work_congr (shared other member)]
  exact kind

theorem groupLoop_ok {turns : Nat} {rows : List UnsettledRow} {settlements : List Settlement}
    (sorted : rows.Pairwise fun left right => left.order ≤ right.order)
    (enough : rows.length ≤ turns) (ok : groupLoop turns rows = .ok settlements) :
    ∃ groups, List.Forall₂ Settles groups settlements ∧ groups.flatten = known rows ∧
      groups.Pairwise fun left right => ∀ a ∈ left, ∀ b ∈ right, a.identity ≠ b.identity := by
  induction turns generalizing rows settlements with
  | zero =>
      cases ok
      rw [List.length_eq_zero_iff.mp (Nat.le_zero.mp enough)]
      exact ⟨[], .nil, rfl, .nil⟩
  | succ turns ih =>
      cases rows with
      | nil =>
          cases ok
          exact ⟨[], .nil, rfl, .nil⟩
      | cons row rest =>
          unfold groupLoop at ok
          obtain ⟨ahead, tail⟩ := List.pairwise_cons.mp sorted
          rw [List.length_cons] at enough
          cases kind : row.work with
          | none =>
              rw [kind] at ok
              obtain ⟨groups, settles, flat, apart⟩ := ih tail (by omega) ok
              refine ⟨groups, settles, ?_, apart⟩
              rw [flat, known, known, List.filter_cons_of_neg (by rw [kind]; simp)]
          | some work =>
              rw [kind] at ok
              obtain ⟨line, priced, ok⟩ := bind_eq_ok.mp ok
              obtain ⟨⟨lines, behind⟩, taken, ok⟩ := bind_eq_ok.mp ok
              obtain ⟨settlement, settled, ok⟩ := bind_eq_ok.mp ok
              obtain ⟨others, looped, ok⟩ := bind_eq_ok.mp ok
              cases ok
              obtain ⟨group, rfl, shared, priceds, other⟩ := nextLines_ok taken
              rw [List.length_append] at enough
              obtain ⟨groups, settles, flat, apart⟩ :=
                ih (List.pairwise_append.mp tail).2.1 (by omega) looped
              have knows : row.work.isSome = true := by rw [kind]; rfl
              have whole : ∀ any ∈ row :: group, any.identity = row.identity :=
                List.forall_mem_cons.mpr ⟨rfl, shared⟩
              have given := UnsettledRow.settlement_lines settled
              refine ⟨(row :: group) :: groups, .cons ⟨?_, ?_, ?_⟩ settles, ?_,
                List.pairwise_cons.mpr ⟨?_, apart⟩⟩
              · exact ⟨row, List.mem_cons_self, work, kind, by rw [given]; exact settled, whole⟩
              · have front : (row :: group).Pairwise fun left right => left.order ≤ right.order :=
                  sorted.sublist (List.sublist_append_left (row :: group) behind)
                refine front.imp_of_mem fun left right before => ?_
                rcases order_le.mp before with differ | ⟨-, seq⟩
                · exact absurd ((whole _ left).trans (whole _ right).symm) (ne_of_lt differ)
                · exact seq
              · rw [given]
                exact .cons priced priceds
              · rw [List.flatten_cons, flat, ← known_of_identity knows whole, known, known, known,
                  ← List.filter_append]
                rfl
              · intro later member a first b second
                have rows : (row :: behind).Pairwise fun left right =>
                    left.order ≤ right.order :=
                  List.pairwise_cons.mpr ⟨fun next more =>
                    ahead next (List.mem_append_right _ more), (List.pairwise_append.mp tail).2.1⟩
                have passed := identity_passed rows other
                have reached : b ∈ known behind := by
                  rw [← flat]
                  exact List.mem_flatten.mpr ⟨later, member, second⟩
                rw [whole a first]
                exact passed b (List.mem_of_mem_filter reached)

theorem sorted_mergeSort (rows : List UnsettledRow) :
    (rows.mergeSort fun left right => decide (left.order ≤ right.order)).Pairwise
      fun left right => left.order ≤ right.order := by
  refine (List.pairwise_mergeSort ?_ ?_ rows).imp fun before => of_decide_eq_true before
  · intro a b c first second
    exact decide_eq_true (le_trans (of_decide_eq_true first) (of_decide_eq_true second))
  · intro a b
    simpa using le_total a.order b.order

/-- A page's settlements take each of its rows of a known kind once, in one settlement an
identity. -/
theorem grouped_ok {rows : List UnsettledRow} {settlements : List Settlement}
    (ok : grouped rows = .ok settlements) : OneEach rows settlements := by
  obtain ⟨groups, settles, flat, apart⟩ := groupLoop_ok (sorted_mergeSort rows) (Nat.le_refl _) ok
  refine ⟨groups, settles, ?_, apart⟩
  rw [flat]
  exact (List.mergeSort_perm rows _).filter _

theorem grouped_error {rows : List UnsettledRow} {refused : RowMalformed}
    (failed : grouped rows = .error refused) :
    ∃ row ∈ rows, row.work.isSome = true ∧ row.Refuses refused := by
  obtain ⟨row, member, refuses⟩ := groupLoop_error failed
  exact ⟨row, List.mem_mergeSort.mp member, refuses⟩

/-! ## A lap of pages -/

theorem isAfter_iff {row : UnsettledRow} {resume : Resume} :
    row.isAfter (some resume) = true ↔ resume.position < row.resume.position := by
  rw [Resume.position, Resume.position, Prod.Lex.toLex_lt_toLex]
  simp only [UnsettledRow.isAfter, UnsettledRow.resume, Bool.or_eq_true, Bool.and_eq_true,
    decide_eq_true_eq]
  constructor
  · exact fun after => after.imp id fun ⟨same, later⟩ => ⟨same.symm, later⟩
  · exact fun after => after.imp id fun ⟨same, later⟩ => ⟨same.symm, later⟩

def remaining (after : Option Resume) (log : List UnsettledRow) : List UnsettledRow :=
  log.filter (·.isAfter after)

theorem remaining_none (log : List UnsettledRow) : remaining none log = log :=
  List.filter_eq_self.mpr fun _ _ => rfl

def oldestFirst (log : List UnsettledRow) : List UnsettledRow :=
  log.mergeSort fun left right => decide (left.resume.position ≤ right.resume.position)

theorem oldestFirst_perm (log : List UnsettledRow) : (oldestFirst log).Perm log :=
  List.mergeSort_perm _ _

theorem oldestFirst_sorted {log : List UnsettledRow} (distinct : (log.map (·.lineId)).Nodup) :
    (oldestFirst log).Pairwise fun left right => left.resume.position < right.resume.position := by
  have sorted : (oldestFirst log).Pairwise
      fun left right => left.resume.position ≤ right.resume.position := by
    refine (List.pairwise_mergeSort ?_ ?_ log).imp fun before => of_decide_eq_true before
    · intro a b c first second
      exact decide_eq_true (le_trans (of_decide_eq_true first) (of_decide_eq_true second))
    · intro a b
      simpa using le_total a.resume.position b.resume.position
  have apart : (oldestFirst log).Pairwise fun left right => left.lineId ≠ right.lineId :=
    List.pairwise_map.mp (((oldestFirst_perm log).map _).nodup_iff.mpr distinct)
  refine (sorted.and apart).imp fun ⟨before, differ⟩ => lt_of_le_of_ne before ?_
  intro same
  have ids := congrArg (fun position => (ofLex position).2) same
  exact differ ids

theorem selectUnsettled_eq (limit : Nat) (after : Option Resume) (log : List UnsettledRow) :
    selectUnsettled limit after log = (oldestFirst (remaining after log)).take limit := rfl

theorem remaining_after_page {log : List UnsettledRow} {limit : Nat} {after : Option Resume}
    {last : UnsettledRow} (distinct : (log.map (·.lineId)).Nodup)
    (ends : (selectUnsettled limit after log).getLast? = some last) :
    (remaining (some last.resume) (remaining after log)).Perm
      ((oldestFirst (remaining after log)).drop limit) := by
  have sorted := oldestFirst_sorted
    (distinct.sublist ((List.filter_sublist (p := (·.isAfter after)) (l := log)).map (·.lineId)))
  change (oldestFirst (remaining after log)).Pairwise _ at sorted
  rw [selectUnsettled_eq] at ends
  refine ((oldestFirst_perm (remaining after log)).filter _).symm.trans (List.Perm.of_eq ?_)
  generalize oldestFirst (remaining after log) = rows at sorted ends
  obtain ⟨front, page⟩ := List.getLast?_eq_some_iff.mp ends
  rw [← List.take_append_drop limit rows, page] at sorted
  conv_lhs => rw [← List.take_append_drop limit rows, page]
  obtain ⟨early, -, across⟩ := List.pairwise_append.mp sorted
  rw [List.filter_append, List.filter_eq_nil_iff.mpr, List.filter_eq_self.mpr, List.nil_append]
  · intro row late
    rw [isAfter_iff]
    exact across last (List.mem_append_right _ (List.mem_singleton_self last)) row late
  · intro row member
    rw [isAfter_iff]
    rcases List.mem_append.mp member with before | same
    · exact not_lt_of_ge (le_of_lt
        ((List.pairwise_append.mp early).2.2 row before last (List.mem_singleton_self last)))
    · rw [List.mem_singleton.mp same]
      exact lt_irrefl _

/-- Lines that leave the log once they are read change nothing a later pass reads. -/
theorem remaining_stays (resume : Resume) (stays : UnsettledRow → Bool)
    (log : List UnsettledRow) :
    remaining (some resume) (log.filter fun row => row.isAfter (some resume) || stays row) =
      remaining (some resume) log := by
  unfold remaining
  rw [List.filter_filter]
  apply List.filter_congr
  intro row _
  cases row.isAfter (some resume) <;> rfl

theorem remaining_later {log : List UnsettledRow} {after : Option Resume} {last : UnsettledRow}
    (reached : last.isAfter after = true) :
    remaining (some last.resume) (remaining after log) = remaining (some last.resume) log := by
  unfold remaining
  rw [List.filter_filter]
  apply List.filter_congr
  intro row _
  cases later : row.isAfter (some last.resume) with
  | false => rfl
  | true =>
      cases after with
      | none => rfl
      | some resume =>
          have := isAfter_iff.mpr (lt_trans (isAfter_iff.mp reached) (isAfter_iff.mp later))
          rw [this]
          rfl

def Leaves (page : List UnsettledRow) (after : Option Resume) (log : List UnsettledRow) :
    Option Resume → Prop
  | none => page.Perm (remaining after log)
  | some resume =>
      (page ++ remaining (some resume) log).Perm (remaining after log) ∧
        (remaining (some resume) log).length < (remaining after log).length

theorem unsettled_ok {limit : Nat} {after : Option Resume} {log : List UnsettledRow}
    {settlements : List Settlement} {resume : Option Resume} (page : 0 < limit)
    (distinct : (log.map (·.lineId)).Nodup)
    (ok : unsettled limit after log = .ok (settlements, resume)) :
    OneEach (selectUnsettled limit after log) settlements ∧
      Leaves (selectUnsettled limit after log) after log resume := by
  unfold unsettled at ok
  dsimp only at ok
  cases grouping : grouped (selectUnsettled limit after log) with
  | error refused =>
      rw [grouping] at ok
      cases ok
  | ok groups =>
      rw [grouping] at ok
      obtain ⟨rfl, ends⟩ := Prod.mk.inj (Except.ok.inj ok)
      refine ⟨grouped_ok grouping, ?_⟩
      by_cases full : limit ≤ (selectUnsettled limit after log).length
      · rw [if_pos full] at ends
        cases last : (selectUnsettled limit after log).getLast? with
        | none =>
            rw [List.getLast?_eq_none_iff.mp last, List.length_nil] at full
            omega
        | some row =>
            rw [last] at ends
            cases ends
            have rest := remaining_after_page distinct last
            have member : row ∈ selectUnsettled limit after log := List.mem_of_getLast? last
            have reached := (Table.mem_of_mem_select member).2
            rw [remaining_later reached] at rest
            have whole : (selectUnsettled limit after log ++
                remaining (some row.resume) log).Perm (remaining after log) := by
              refine (rest.append_left _).trans ?_
              rw [selectUnsettled_eq, List.take_append_drop]
              exact oldestFirst_perm _
            have := whole.length_eq
            rw [List.length_append] at this
            have fewer : (remaining (some row.resume) log).length <
                (remaining after log).length := by omega
            exact ⟨whole, fewer⟩
      · rw [if_neg full] at ends
        rw [← ends]
        have short : (oldestFirst (remaining after log)).length ≤ limit := by
          rw [selectUnsettled_eq, List.length_take] at full
          omega
        show (selectUnsettled limit after log).Perm (remaining after log)
        rw [selectUnsettled_eq, List.take_of_length_le short]
        exact oldestFirst_perm _

theorem unsettled_error {limit : Nat} {after : Option Resume} {log : List UnsettledRow}
    {refused : RowMalformed} (failed : unsettled limit after log = .error refused) :
    ∃ row ∈ remaining after log, row.work.isSome = true ∧ row.Refuses refused := by
  obtain ⟨row, member, refuses⟩ := grouped_error (map_eq_error failed)
  obtain ⟨held, reached⟩ := Table.mem_of_mem_select member
  exact ⟨row, List.mem_filter.mpr ⟨held, reached⟩, refuses⟩

theorem distinct_filter {log : List UnsettledRow} (keep : UnsettledRow → Bool)
    (distinct : (log.map (·.lineId)).Nodup) : ((log.filter keep).map (·.lineId)).Nodup :=
  distinct.sublist (List.filter_sublist.map _)

theorem lap_ok {limit : Nat} {stays : UnsettledRow → Bool} {passes : Nat}
    {after : Option Resume} {log : List UnsettledRow} {settlements : List Settlement}
    (page : 0 < limit) (distinct : (log.map (·.lineId)).Nodup)
    (enough : (remaining after log).length < passes)
    (ok : lap limit stays passes after log = .ok settlements) :
    Covers (remaining after log) settlements := by
  induction passes generalizing after log settlements with
  | zero => omega
  | succ passes ih =>
      unfold lap at ok
      obtain ⟨⟨first, resume⟩, read, ok⟩ := bind_eq_ok.mp ok
      obtain ⟨one, left⟩ := unsettled_ok page distinct read
      cases resume with
      | none =>
          cases ok
          exact one.covers.perm left
      | some resume =>
          obtain ⟨whole, fewer⟩ := left
          obtain ⟨rest, later, ok⟩ := bind_eq_ok.mp ok
          cases ok
          have covers := ih (distinct_filter _ distinct)
            (by rw [remaining_stays]; omega) later
          rw [remaining_stays] at covers
          exact (one.covers.append covers).perm whole

theorem lap_error {limit : Nat} {stays : UnsettledRow → Bool} {passes : Nat}
    {after : Option Resume} {log : List UnsettledRow} {refused : RowMalformed}
    (failed : lap limit stays passes after log = .error refused) :
    ∃ row ∈ log, row.work.isSome = true ∧ row.Refuses refused := by
  induction passes generalizing after log with
  | zero => cases failed
  | succ passes ih =>
      unfold lap at failed
      rcases bind_eq_error.mp failed with read | ⟨⟨first, resume⟩, -, failed⟩
      · obtain ⟨row, member, refuses⟩ := unsettled_error read
        exact ⟨row, List.mem_of_mem_filter member, refuses⟩
      · cases resume with
        | none => cases failed
        | some resume =>
            rcases bind_eq_error.mp failed with later | ⟨_, -, failed⟩
            · obtain ⟨row, member, refuses⟩ := ih later
              exact ⟨row, List.mem_of_mem_filter member, refuses⟩
            · cases failed

theorem unsettled_whole {limit : Nat} {log : List UnsettledRow} {settlements : List Settlement}
    {resume : Option Resume} (long : log.length < limit)
    (ok : unsettled limit none log = .ok (settlements, resume)) :
    OneEach log settlements ∧ resume = none := by
  have whole : selectUnsettled limit none log = oldestFirst log := by
    rw [selectUnsettled_eq, remaining_none, List.take_of_length_le]
    rw [(oldestFirst_perm log).length_eq]
    omega
  unfold unsettled at ok
  dsimp only at ok
  rw [whole, (oldestFirst_perm log).length_eq, if_neg (by omega)] at ok
  cases grouping : grouped (oldestFirst log) with
  | error refused =>
      rw [grouping] at ok
      cases ok
  | ok groups =>
      rw [grouping] at ok
      cases ok
      obtain ⟨parts, settles, perm, apart⟩ := grouped_ok grouping
      exact ⟨⟨parts, settles, perm.trans ((oldestFirst_perm log).filter _), apart⟩, rfl⟩

/-- One unbounded page settles each row of a known kind once, in one settlement an identity,
and a lap of any page size settles the same rows, each once.  Either is refused only for a row
that holds no identifier where one belongs. -/
theorem pages_settle_the_same (log : List UnsettledRow)
    (distinct : (log.map (·.lineId)).Nodup) (limit bound passes : Nat)
    (stays : UnsettledRow → Bool) (page : 0 < limit) (unbounded : log.length < bound)
    (enough : log.length < passes) :
    (∀ settlements resume, unsettled bound none log = .ok (settlements, resume) →
      OneEach log settlements ∧ resume = none) ∧
    (∀ settlements, lap limit stays passes none log = .ok settlements → Covers log settlements) ∧
    ((∀ row ∈ log, row.work.isSome = true → row.Formed) →
      (∃ settlements resume, unsettled bound none log = .ok (settlements, resume)) ∧
      ∃ settlements, lap limit stays passes none log = .ok settlements) := by
  refine ⟨fun settlements resume => unsettled_whole unbounded, ?_, fun formed => ⟨?_, ?_⟩⟩
  · intro settlements ok
    have covers := lap_ok page distinct (by rw [remaining_none]; exact enough) ok
    rw [remaining_none] at covers
    exact covers
  · cases result : unsettled bound none log with
    | ok read => exact ⟨read.1, read.2, rfl⟩
    | error refused =>
        obtain ⟨row, member, kind, refuses⟩ := unsettled_error result
        rw [remaining_none] at member
        exact absurd refuses ((formed row member kind).refuses refused)
  · cases result : lap limit stays passes none log with
    | ok settlements => exact ⟨settlements, rfl⟩
    | error refused =>
        obtain ⟨row, member, kind, refuses⟩ := lap_error result
        exact absurd refuses ((formed row member kind).refuses refused)

def straddling : List UnsettledRow :=
  [logged "fleet_lease" 2 30 "c", logged "later_kind" 1 20 "b", logged "fleet_lease" 1 10 "a"]
where
  logged (workType : String) (seq loggedAt : Int) (lineId : String) : UnsettledRow :=
    { workType, workId := "0199a0b0-0000-7000-8000-000000000001", seq
      tenantId := "0199a0b0-0000-7000-8000-000000000002"
      workspaceId := "0199a0b0-0000-7000-8000-000000000003"
      fleetId := none, fleetName := none, eventId := none, provider := "p", model := "m"
      posture := "platform", requestedAt := loggedAt, inputTokenCount := 5
      cachedInputTokenCount := 0, cacheWriteTokenCount := 0, cacheWrite5mTokenCount := 0
      cacheWrite1hTokenCount := 0, outputTokenCount := 7, runtimeMs := 0, priceId := none
      unpricedTokenCount := 12, chargedNanos := 0, loggedAt, lineId }

theorem pages_settle_the_same_straddling :
    (∃ settlements, unsettled 4 none straddling = .ok (settlements, none) ∧
      OneEach straddling settlements) ∧
    ∃ settlements, lap 1 (fun _ => true) 4 none straddling = .ok settlements ∧
      Covers straddling settlements := by
  obtain ⟨whole, paged, total⟩ := pages_settle_the_same straddling (by decide) 1 4 4
    (fun _ => true) (by decide) (by decide) (by decide)
  obtain ⟨⟨settlements, resume, ok⟩, laps, read⟩ := total (by decide +kernel)
  obtain ⟨one, rfl⟩ := whole settlements resume ok
  exact ⟨⟨settlements, ok, one⟩, laps, read, paged laps read⟩

end Agentsfleet.Billing
