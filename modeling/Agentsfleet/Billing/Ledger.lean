import Agentsfleet.Billing.Usage
import Agentsfleet.Core.Bounds
import Agentsfleet.Library.Run
import Agentsfleet.Library.SortedMap
import Agentsfleet.Library.Table
import Mathlib.Algebra.Ring.Int.Defs
import Mathlib.Data.String.Basic

/-!
# The built-in biller

Priced lines are logged in the work's own transaction and settled by the relay,
inline or in sweeps, any of it repeated.  A transaction holds the rows it writes
to its commit and re-reads a row it waited for, so transactions take effect one
at a time; one that does not commit changes nothing and is no event here.
-/

set_option autoImplicit false

namespace Agentsfleet.Billing

open Agentsfleet.Core
open Agentsfleet.Library

/-- A row of `billing.usage_lines`. -/
structure Line where
  work : WorkKey
  payer : Account
  attribution : Attribution
  provider : String
  model : String
  posture : Posture
  rated : RatedLine
  settledAt : Option Nat
  createdAt : Nat
  updatedAt : Nat
deriving DecidableEq

abbrev LineKey := WorkKey × Nat

def Line.key (line : Line) : LineKey := (line.work, line.rated.usage.seq)

structure Wallet where
  balance : Int
  exhaustedAt : Option Nat
deriving DecidableEq

structure Ledger where
  lines : List Line
  wallets : SortedMap String Wallet

inductive BillingError where
  | chargeOverflow
  | query
deriving DecidableEq

structure Receipt where
  settledLines : Nat
  charged : Int
  taken : Int
deriving DecidableEq

/-! ## Logging -/

def Settlement.row (settlement : Settlement) (now : Nat) (rated : RatedLine) : Line where
  work := settlement.work
  payer := settlement.payer
  attribution := settlement.attribution
  provider := settlement.provider
  model := settlement.model
  posture := settlement.posture
  rated := rated
  settledAt := none
  createdAt := now
  updatedAt := now

/-- The insert of `insert_lines.sql`: the lines written, and the log after. -/
def insertLines (settlement : Settlement) (now : Nat) :
    List RatedLine → List Line → List RatedLine × List Line
  | [], lines => ([], lines)
  | rated :: rest, lines =>
      match Table.insertNew Line.key (settlement.row now rated) lines with
      | (written, lines) =>
          match insertLines settlement now rest lines with
          | (inserted, lines) => (if written then rated :: inserted else inserted, lines)

def i64Max : Nat := 9223372036854775807

/-- `log_lines`: the new coding-request cost, and the log after. -/
def logLines (now : Nat) (settlement : Settlement) (lines : List Line) :
    Except BillingError (Int × List Line) :=
  if settlement.lines.isEmpty then .ok (0, lines)
  else if settlement.lines.any fun rated => exceeds i64Max rated.unpricedTokens then
    .error .chargeOverflow
  else
    match insertLines settlement now settlement.lines lines with
    | (inserted, lines) =>
        let model := ((inserted.filter fun rated => rated.usage.seq < daemonSeqBase).map
          RatedLine.charged).sum
        if inI64 model then .ok (model, lines) else .error .query

/-! ## Settling -/

/-- The row test of `settle_lines.sql`. -/
def Settlement.hits (settlement : Settlement) (line : Line) : Bool :=
  decide (line.work = settlement.work) && line.settledAt.isNone &&
    (settlement.lines.map fun rated => rated.usage.seq).contains line.rated.usage.seq

def Line.stamp (now : Nat) (line : Line) : Line :=
  { line with settledAt := some now, updatedAt := now }

/-- `settle_lines.sql`: the lines it moved, and the log after. -/
def settleLines (now : Nat) (settlement : Settlement) (lines : List Line) :
    List Line × List Line :=
  (lines.filter settlement.hits, Table.update settlement.hits (Line.stamp now) lines)

def Wallet.debit (now : Nat) (total : Int) (wallet : Wallet) : Wallet where
  balance := wallet.balance - total
  exhaustedAt :=
    if wallet.balance - total ≤ 0 then some (wallet.exhaustedAt.getD now) else none

/-- `charge`: the receipt, the lines it moved, and the ledger after. -/
def charge (now : Nat) (settlement : Settlement) (ledger : Ledger) :
    Except BillingError (Receipt × List Line × Ledger) :=
  match settleLines now settlement ledger.lines with
  | (moved, lines) =>
      match checkedSum 0 (moved.map fun line => line.rated.charged) with
      | none => .error .chargeOverflow
      | some total =>
          if total = 0 then .ok (⟨moved.length, 0, 0⟩, moved, ⟨lines, ledger.wallets⟩)
          else
            match ledger.wallets.get settlement.payer.tenant with
            | none => .ok (⟨moved.length, total, 0⟩, moved, ⟨lines, ledger.wallets⟩)
            | some wallet =>
                if inI64 (wallet.balance - total) then
                  .ok (⟨moved.length, total, total⟩, moved,
                    ⟨lines, ledger.wallets.insert settlement.payer.tenant
                      (wallet.debit now total)⟩)
                else .error .query

/-- `LedgerBiller::settle`, one transaction. -/
def settle (now : Nat) (settlement : Settlement) (ledger : Ledger) :
    Except BillingError (Receipt × List Line × Ledger) :=
  match logLines now settlement ledger.lines with
  | .error refused => .error refused
  | .ok (_, lines) => charge now settlement ⟨lines, ledger.wallets⟩

/-! ## Any number of callers -/

/-- A charge made: the line, the payer, and whether a wallet paid it. -/
structure Charge where
  key : LineKey
  tenant : String
  amount : Int
  taken : Bool
deriving DecidableEq

structure System where
  ledger : Ledger
  charges : List Charge
  credits : List (String × Int)

def System.start (wallets : SortedMap String Wallet) : System where
  ledger := ⟨[], wallets⟩
  charges := []
  credits := wallets.entries.map fun held => (held.1, held.2.balance)

inductive Event where
  /-- A work's transaction logs its lines. -/
  | log (now : Nat) (settlement : Settlement)
  /-- A biller settles, inline or from a sweep's read of any age. -/
  | settle (now : Nat) (settlement : Settlement)
  | grant (tenant : String) (amount : Int)
  | erase (tenant : String)
deriving DecidableEq

def System.step (s : System) : Event → System
  | .log now settlement =>
      match logLines now settlement s.ledger.lines with
      | .error _ => s
      | .ok (_, lines) => { s with ledger := ⟨lines, s.ledger.wallets⟩ }
  | .settle now settlement =>
      match settle now settlement s.ledger with
      | .error _ => s
      | .ok (_, moved, ledger) =>
          let taken := (s.ledger.wallets.get settlement.payer.tenant).isSome
          { s with
            ledger := ledger
            charges := (moved.map fun line =>
              ⟨line.key, settlement.payer.tenant, line.rated.charged, taken⟩) ++ s.charges }
  | .grant tenant amount =>
      match s.ledger.wallets.get tenant with
      | none => s
      | some wallet =>
          { s with
            ledger := ⟨s.ledger.lines, s.ledger.wallets.insert tenant
              { wallet with balance := wallet.balance + amount }⟩
            credits := (tenant, amount) :: s.credits }
  | .erase tenant => { s with ledger := ⟨s.ledger.lines, s.ledger.wallets.remove tenant⟩ }

def System.paidIn (s : System) (tenant : String) : Int :=
  ((s.credits.filter fun credit => credit.1 = tenant).map Prod.snd).sum

def System.takenFrom (s : System) (tenant : String) : Int :=
  ((s.charges.filter fun charge => charge.tenant = tenant && charge.taken).map Charge.amount).sum

def System.timesCharged (s : System) (key : LineKey) : Nat := (s.charges.map Charge.key).count key

/-! ## Logging, once -/

section Log

variable {now : Nat} {settlement : Settlement} {lines after : List Line}

theorem insertLines_spec (rated : List RatedLine) {inserted : List RatedLine}
    (written : insertLines settlement now rated lines = (inserted, after))
    (unique : (lines.map Line.key).Nodup) :
    (after.map Line.key).Nodup ∧ (∀ line ∈ lines, line ∈ after) ∧
      (∀ line ∈ after, line ∈ lines ∨ line.settledAt = none ∧ line.key ∉ lines.map Line.key) ∧
        ∀ line ∈ rated, (settlement.work, line.usage.seq) ∈ after.map Line.key := by
  induction rated generalizing lines inserted with
  | nil =>
      simp only [insertLines, Prod.mk.injEq] at written
      obtain ⟨_, rfl⟩ := written
      exact ⟨unique, fun _ member => member, fun _ member => .inl member, by simp⟩
  | cons line rest ih =>
      unfold insertLines at written
      have unique_next := Table.insertNew_nodup Line.key (settlement.row now line) unique
      have kept := fun other (member : other ∈ lines) =>
        Table.mem_insertNew_of_mem Line.key (settlement.row now line) member
      have named := Table.mem_key_insertNew Line.key (settlement.row now line) lines
      cases first : Table.insertNew Line.key (settlement.row now line) lines with
      | mk wrote between =>
          rw [first] at unique_next kept named
          simp only [first] at written
          cases others : insertLines settlement now rest between with
          | mk later final =>
              simp only [others, Prod.mk.injEq] at written
              obtain ⟨_, rfl⟩ := written
              obtain ⟨unique_after, kept_after, fresh, named_after⟩ := ih others unique_next
              refine ⟨unique_after, ?_, ?_, ?_⟩
              · exact fun other member => kept_after other (kept other member)
              · intro other member
                rcases fresh other member with inside | ⟨unsettled, apart⟩
                · have written : other ∈
                      (Table.insertNew Line.key (settlement.row now line) lines).2 := by
                    rw [first]
                    exact inside
                  have source := Table.mem_insertNew written
                  rcases source with old | ⟨rfl, apart⟩
                  · exact .inl old
                  · exact .inr ⟨rfl, apart⟩
                · refine .inr ⟨unsettled, ?_⟩
                  intro old
                  obtain ⟨held, member_held, same⟩ := List.mem_map.mp old
                  exact apart (List.mem_map.mpr ⟨held, kept held member_held, same⟩)
              · intro other member
                rcases List.mem_cons.mp member with rfl | inside
                · obtain ⟨held, member_held, same⟩ := List.mem_map.mp named
                  exact List.mem_map.mpr ⟨held, kept_after held member_held, same⟩
                · exact named_after other inside

theorem insertLines_again (rated : List RatedLine)
    (named : ∀ line ∈ rated, (settlement.work, line.usage.seq) ∈ lines.map Line.key) :
    insertLines settlement now rated lines = ([], lines) := by
  induction rated with
  | nil => rfl
  | cons line rest ih =>
      have present : (settlement.row now line).key ∈ lines.map Line.key := named line (by simp)
      have first : Table.insertNew Line.key (settlement.row now line) lines = (false, lines) :=
        if_pos present
      unfold insertLines
      simp only [first, ih fun other member => named other (by simp [member])]
      rfl

structure Logged (settlement : Settlement) (lines after : List Line) : Prop where
  unique : (after.map Line.key).Nodup
  kept : ∀ line ∈ lines, line ∈ after
  fresh : ∀ line ∈ after, line ∈ lines ∨ line.settledAt = none ∧ line.key ∉ lines.map Line.key
  named : ∀ line ∈ settlement.lines, (settlement.work, line.usage.seq) ∈ after.map Line.key

theorem logLines_logged {model : Int}
    (logged : logLines now settlement lines = .ok (model, after))
    (unique : (lines.map Line.key).Nodup) : Logged settlement lines after := by
  unfold logLines at logged
  by_cases empty : settlement.lines.isEmpty = true
  · rw [if_pos empty] at logged
    cases logged
    rw [List.isEmpty_iff] at empty
    exact ⟨unique, fun _ member => member, fun _ member => .inl member, by simp [empty]⟩
  · rw [if_neg empty] at logged
    by_cases large : (settlement.lines.any fun rated => exceeds i64Max rated.unpricedTokens) = true
    · rw [if_pos large] at logged
      exact nomatch logged
    · rw [if_neg large] at logged
      cases written : insertLines settlement now settlement.lines lines with
      | mk inserted next =>
          simp only [written] at logged
          split at logged
          · cases logged
            obtain ⟨unique_after, kept, fresh, named⟩ :=
              insertLines_spec settlement.lines written unique
            exact ⟨unique_after, kept, fresh, named⟩
          · exact nomatch logged

theorem logLines_insert {model : Int}
    (logged : logLines now settlement lines = .ok (model, after)) :
    after = (insertLines settlement now settlement.lines lines).2 := by
  unfold logLines at logged
  by_cases empty : settlement.lines.isEmpty = true
  · rw [if_pos empty] at logged
    cases logged
    rw [List.isEmpty_iff.mp empty]
    rfl
  · rw [if_neg empty] at logged
    by_cases large : (settlement.lines.any fun rated => exceeds i64Max rated.unpricedTokens) = true
    · rw [if_pos large] at logged
      exact nomatch logged
    · rw [if_neg large] at logged
      cases written : insertLines settlement now settlement.lines lines with
      | mk inserted next =>
          simp only [written] at logged
          split at logged
          · cases logged
            rfl
          · exact nomatch logged

theorem insertLines_append (first second : List RatedLine) :
    (insertLines settlement now (first ++ second) lines).2 =
      (insertLines settlement now second (insertLines settlement now first lines).2).2 := by
  induction first generalizing lines with
  | nil => rfl
  | cons rated rest ih =>
      simp only [List.cons_append, insertLines]
      exact ih

theorem mem_insertLines {rated : List RatedLine} {line : Line}
    (member : line ∈ (insertLines settlement now rated lines).2) :
    line ∈ lines ∨ ∃ one ∈ rated, line = settlement.row now one := by
  induction rated generalizing lines with
  | nil => exact .inl member
  | cons first rest ih =>
      rcases ih member with inside | ⟨one, held, same⟩
      · rcases Table.mem_insertNew inside with old | ⟨rfl, _⟩
        · exact .inl old
        · exact .inr ⟨first, List.mem_cons_self, rfl⟩
      · exact .inr ⟨one, List.mem_cons_of_mem _ held, same⟩

theorem filter_insertLines {keep : Line → Bool} {rated : List RatedLine}
    (outside : ∀ line ∈ rated, keep (settlement.row now line) = false) :
    (insertLines settlement now rated lines).2.filter keep = lines.filter keep := by
  induction rated generalizing lines with
  | nil => rfl
  | cons line rest ih =>
      simp only [insertLines]
      rw [ih fun other member => outside other (by simp [member])]
      unfold Table.insertNew
      split
      · rfl
      · rw [List.filter_append, List.filter_singleton, outside line (by simp)]
        exact List.append_nil _

theorem logLines_again {model : Int} {before : List Line} {earlier : Nat}
    (logged : logLines earlier settlement before = .ok (model, after))
    (named : ∀ line ∈ settlement.lines, (settlement.work, line.usage.seq) ∈ lines.map Line.key) :
    logLines now settlement lines = .ok (0, lines) := by
  unfold logLines at logged ⊢
  by_cases empty : settlement.lines.isEmpty = true
  · rw [if_pos empty]
  · rw [if_neg empty] at logged ⊢
    by_cases large : (settlement.lines.any fun rated => exceeds i64Max rated.unpricedTokens) = true
    · rw [if_pos large] at logged
      exact nomatch logged
    · rw [if_neg large, insertLines_again settlement.lines named]
      simp [inI64_zero]

end Log

/-! ## What the books hold -/

structure System.Books (s : System) : Prop where
  unique : (s.ledger.lines.map Line.key).Nodup
  once : (s.charges.map Charge.key).Nodup
  exact : ∀ line ∈ s.ledger.lines,
    line.settledAt.isSome = true ↔ line.key ∈ s.charges.map Charge.key
  known : ∀ charge ∈ s.charges, ∃ line ∈ s.ledger.lines,
    line.key = charge.key ∧ line.rated.charged = charge.amount
  balances : ∀ tenant wallet, s.ledger.wallets.get tenant = some wallet →
    wallet.balance = s.paidIn tenant - s.takenFrom tenant

theorem books_log {s : System} {settlement : Settlement} {lines : List Line} (books : s.Books)
    (logged : Logged settlement s.ledger.lines lines) :
    ({ s with ledger := ⟨lines, s.ledger.wallets⟩ } : System).Books where
  unique := logged.unique
  once := books.once
  exact := by
    intro line member
    rcases logged.fresh line member with old | ⟨unsettled, apart⟩
    · exact books.exact line old
    · constructor
      · intro settled
        simp [unsettled] at settled
      · intro charged
        obtain ⟨charge, made, same⟩ := List.mem_map.mp charged
        obtain ⟨held, inside, key, _⟩ := books.known charge made
        exact absurd (List.mem_map.mpr ⟨held, inside, key.trans same⟩) apart
  known := by
    intro charge made
    obtain ⟨line, member, same⟩ := books.known charge made
    exact ⟨line, logged.kept line member, same⟩
  balances := books.balances

def chargesOf (settlement : Settlement) (taken : Bool) (moved : List Line) : List Charge :=
  moved.map fun line => ⟨line.key, settlement.payer.tenant, line.rated.charged, taken⟩

theorem chargesOf_keys (settlement : Settlement) (taken : Bool) (moved : List Line) :
    (chargesOf settlement taken moved).map Charge.key = moved.map Line.key := by
  rw [chargesOf, List.map_map]
  rfl

structure Charged (now : Nat) (settlement : Settlement) (ledger : Ledger) (receipt : Receipt)
    (moved : List Line) (next : Ledger) : Prop where
  picked : moved = ledger.lines.filter settlement.hits
  lines : next.lines = Table.update settlement.hits (Line.stamp now) ledger.lines
  settledLines : receipt.settledLines = moved.length
  charged : receipt.charged = (moved.map fun line => line.rated.charged).sum
  taken : receipt.taken =
    if (ledger.wallets.get settlement.payer.tenant).isSome then receipt.charged else 0
  wallets : ∀ tenant, (next.wallets.get tenant).map Wallet.balance =
    (ledger.wallets.get tenant).map fun wallet =>
      if tenant = settlement.payer.tenant then wallet.balance - receipt.taken
      else wallet.balance

theorem charge_charged {now : Nat} {settlement : Settlement} {ledger next : Ledger}
    {receipt : Receipt} {moved : List Line}
    (charged : charge now settlement ledger = .ok (receipt, moved, next)) :
    Charged now settlement ledger receipt moved next := by
  simp only [charge, settleLines] at charged
  cases summed : checkedSum 0
      ((ledger.lines.filter settlement.hits).map fun line => line.rated.charged) with
  | none => simp [summed] at charged
  | some total =>
      have sum := checkedSum_eq summed
      rw [Int.zero_add] at sum
      simp only [summed] at charged
      by_cases zero : total = 0
      · rw [if_pos zero] at charged
        cases charged
        refine ⟨rfl, rfl, rfl, by rw [← sum, zero], by simp, ?_⟩
        intro tenant
        simp
      · rw [if_neg zero] at charged
        cases held : ledger.wallets.get settlement.payer.tenant with
        | none =>
            simp only [held] at charged
            cases charged
            refine ⟨rfl, rfl, rfl, sum, by simp [held], ?_⟩
            intro tenant
            simp
        | some wallet =>
            simp only [held] at charged
            by_cases fits : inI64 (wallet.balance - total) = true
            · rw [if_pos fits] at charged
              cases charged
              refine ⟨rfl, rfl, rfl, sum, by simp [held], ?_⟩
              intro tenant
              rw [SortedMap.get_insert]
              by_cases same : tenant = settlement.payer.tenant
              · simp [same, held, Wallet.debit]
              · simp [same]
            · rw [if_neg fits] at charged
              exact nomatch charged

theorem takenFrom_charges (s : System) (settlement : Settlement) (taken : Bool)
    (moved : List Line) (tenant : String) :
    ({ s with charges := chargesOf settlement taken moved ++ s.charges } : System).takenFrom
        tenant =
      (if tenant = settlement.payer.tenant ∧ taken = true then
        (moved.map fun line => line.rated.charged).sum else 0) + s.takenFrom tenant := by
  simp only [System.takenFrom, List.filter_append, List.map_append, List.sum_append]
  congr 1
  induction moved with
  | nil => simp [chargesOf]
  | cons line rest ih =>
      simp only [chargesOf, List.map_cons, List.filter_cons] at ih ⊢
      by_cases here : tenant = settlement.payer.tenant ∧ taken = true
      · obtain ⟨rfl, rfl⟩ := here
        simp only [decide_true, Bool.and_self, if_true, List.map_cons, List.sum_cons, ih]
        simp
      · rw [if_neg here] at ih ⊢
        rw [if_neg, ih]
        simp only [Bool.and_eq_true, decide_eq_true_eq]
        exact fun both => here ⟨both.1.symm, both.2⟩

theorem hits_unsettled {settlement : Settlement} {line : Line}
    (hit : settlement.hits line = true) : line.settledAt = none := by
  simp only [Settlement.hits, Bool.and_eq_true, Option.isNone_iff_eq_none] at hit
  exact hit.1.2

theorem books_charge {s : System} {now : Nat} {settlement : Settlement} {receipt : Receipt}
    {moved : List Line} {ledger : Ledger} (books : s.Books)
    (charged : Charged now settlement s.ledger receipt moved ledger) :
    ({ s with
      ledger := ledger
      charges := chargesOf settlement (s.ledger.wallets.get settlement.payer.tenant).isSome moved
        ++ s.charges } : System).Books := by
  have stamped : ∀ line ∈ ledger.lines, ∃ old ∈ s.ledger.lines, line.key = old.key ∧
      line.rated.charged = old.rated.charged ∧
        (settlement.hits old = true ∧ line.settledAt = some now ∨
          settlement.hits old = false ∧ line = old) := by
    intro line member
    rw [charged.lines] at member
    obtain ⟨old, held, rfl⟩ := Table.mem_update.mp member
    cases hit : settlement.hits old with
    | true => exact ⟨old, held, rfl, rfl, .inl ⟨hit, rfl⟩⟩
    | false => exact ⟨old, held, rfl, rfl, .inr ⟨hit, rfl⟩⟩
  have moved_keys : ∀ old ∈ s.ledger.lines,
      old.key ∈ moved.map Line.key ↔ settlement.hits old = true := by
    intro old held
    rw [charged.picked]
    constructor
    · intro member
      obtain ⟨other, kept, same⟩ := List.mem_map.mp member
      obtain ⟨inside, hit⟩ := List.mem_filter.mp kept
      rwa [← List.inj_on_of_nodup_map books.unique inside held same]
    · exact fun hit => List.mem_map_of_mem (List.mem_filter.mpr ⟨held, hit⟩)
  constructor
  · have same := Table.column_update Line.key settlement.hits (Line.stamp now)
      (fun _ => rfl) s.ledger.lines
    rw [charged.lines, same]
    exact books.unique
  · rw [List.map_append, chargesOf_keys]
    apply List.Nodup.append
    · rw [charged.picked]
      exact books.unique.sublist (List.filter_sublist.map _)
    · exact books.once
    · intro key first second
      rw [charged.picked] at first
      obtain ⟨line, kept, rfl⟩ := List.mem_map.mp first
      obtain ⟨inside, hit⟩ := List.mem_filter.mp kept
      have settled := (books.exact line inside).mpr second
      simp [hits_unsettled hit] at settled
  · intro line member
    obtain ⟨old, held, same, _, change⟩ := stamped line member
    rw [List.map_append, chargesOf_keys, List.mem_append, same, moved_keys old held]
    rcases change with ⟨hit, settled⟩ | ⟨unhit, rfl⟩
    · simp [hit, settled]
    · simp [unhit, books.exact line held]
  · intro charge made
    have persists : ∀ old ∈ s.ledger.lines, ∃ line ∈ ledger.lines, line.key = old.key ∧
        line.rated.charged = old.rated.charged := by
      intro old held
      refine ⟨if settlement.hits old then old.stamp now else old, ?_, ?_⟩
      · rw [charged.lines]
        exact Table.mem_update.mpr ⟨old, held, rfl⟩
      · split
        · exact ⟨rfl, rfl⟩
        · exact ⟨rfl, rfl⟩
    rcases List.mem_append.mp made with new | old
    · obtain ⟨line, kept, rfl⟩ := List.mem_map.mp new
      rw [charged.picked] at kept
      exact persists line (List.mem_filter.mp kept).1
    · obtain ⟨line, held, key, amount⟩ := books.known charge old
      obtain ⟨after, inside, key_after, amount_after⟩ := persists line held
      exact ⟨after, inside, key_after.trans key, amount_after.trans amount⟩
  · intro tenant wallet held
    have changed := charged.wallets tenant
    have total := takenFrom_charges { s with ledger := ledger } settlement
      (s.ledger.wallets.get settlement.payer.tenant).isSome moved tenant
    simp only [System.takenFrom] at total
    simp only [System.takenFrom, System.paidIn, total]
    simp only at held
    rw [held] at changed
    cases before : s.ledger.wallets.get tenant with
    | none => simp [before] at changed
    | some old =>
        have balance := books.balances tenant old before
        simp only [System.takenFrom, System.paidIn] at balance
        simp only [before, Option.map_some, Option.some.injEq] at changed
        by_cases same : tenant = settlement.payer.tenant
        · subst same
          have taken := charged.taken
          rw [before] at taken
          simp only [Option.isSome_some, if_true] at taken
          simp only [if_true] at changed
          rw [changed, taken, charged.charged, before]
          simp only [Option.isSome_some, and_self, if_true]
          omega
        · rw [if_neg same] at changed
          rw [changed, if_neg fun both => same both.1]
          omega

/-! ## Any order of steps -/

theorem sum_of_key {pairs : List (String × Int)} {tenant : String} {amount : Int}
    (unique : (pairs.map Prod.fst).Nodup) (member : (tenant, amount) ∈ pairs) :
    ((pairs.filter fun pair => pair.1 = tenant).map Prod.snd).sum = amount := by
  induction pairs with
  | nil => simp at member
  | cons pair rest ih =>
      rw [List.map_cons, List.nodup_cons] at unique
      rcases List.mem_cons.mp member with rfl | inside
      · have others : rest.filter (fun pair => pair.1 = tenant) = [] := by
          rw [List.filter_eq_nil_iff]
          intro other held same
          simp only [decide_eq_true_eq] at same
          exact unique.1 (List.mem_map.mpr ⟨other, held, same⟩)
        simp [others]
      · have apart : pair.1 ≠ tenant := by
          intro same
          exact unique.1 (List.mem_map.mpr ⟨(tenant, amount), inside, same.symm⟩)
        simpa [List.filter_cons, apart] using ih unique.2 inside

theorem books_start (wallets : SortedMap String Wallet) : (System.start wallets).Books where
  unique := List.nodup_nil
  once := List.nodup_nil
  exact := by simp [System.start]
  known := by simp [System.start]
  balances := by
    intro tenant wallet held
    have paid : (System.start wallets).paidIn tenant = wallet.balance := by
      apply sum_of_key
      · simp only [System.start, List.map_map]
        exact wallets.keys_nodup
      · refine List.mem_map.mpr ⟨(tenant, wallet), ?_, rfl⟩
        exact (wallets.mem_entries_iff tenant wallet).mpr held
    rw [paid]
    simp [System.takenFrom, System.start]

theorem settle_eq_ok {now : Nat} {settlement : Settlement} {ledger next : Ledger}
    {receipt : Receipt} {moved : List Line} :
    settle now settlement ledger = .ok (receipt, moved, next) ↔
      ∃ model lines, logLines now settlement ledger.lines = .ok (model, lines) ∧
        charge now settlement ⟨lines, ledger.wallets⟩ = .ok (receipt, moved, next) := by
  unfold settle
  cases logged : logLines now settlement ledger.lines with
  | error refused => simp
  | ok answer =>
      obtain ⟨model, lines⟩ := answer
      simp

theorem step_logged_again {s : System} {now : Nat} {settlement : Settlement}
    (logged : logLines now settlement s.ledger.lines = .ok (0, s.ledger.lines)) :
    s.step (.log now settlement) = s := by
  simp only [System.step, logged]

theorem step_settled {s : System} {now : Nat} {settlement : Settlement} {receipt : Receipt}
    {moved : List Line} {ledger : Ledger}
    (settled : settle now settlement s.ledger = .ok (receipt, moved, ledger)) :
    s.step (.settle now settlement) =
      { s with
        ledger := ledger
        charges :=
          chargesOf settlement (s.ledger.wallets.get settlement.payer.tenant).isSome moved
            ++ s.charges } := by
  simp only [System.step, settled, chargesOf]

theorem books_step {s : System} (event : Event) (books : s.Books) : (s.step event).Books := by
  cases event with
  | log now settlement =>
      cases logged : logLines now settlement s.ledger.lines with
      | error refused => simpa only [System.step, logged] using books
      | ok answer =>
          simp only [System.step, logged]
          exact books_log books (logLines_logged logged books.unique)
  | settle now settlement =>
      cases settled : settle now settlement s.ledger with
      | error refused => simpa only [System.step, settled] using books
      | ok answer =>
          obtain ⟨receipt, moved, ledger⟩ := answer
          obtain ⟨model, lines, logged, charged⟩ := settle_eq_ok.mp settled
          have logged_books := books_log books (logLines_logged logged books.unique)
          rw [step_settled settled]
          exact books_charge (s := { s with ledger := ⟨lines, s.ledger.wallets⟩ }) logged_books
            (charge_charged charged)
  | grant tenant amount =>
      cases held : s.ledger.wallets.get tenant with
      | none => simpa only [System.step, held] using books
      | some wallet =>
          simp only [System.step, held]
          refine ⟨books.unique, books.once, books.exact, books.known, ?_⟩
          intro other after found
          simp only [SortedMap.get_insert] at found
          by_cases same : other = tenant
          · subst same
            have balance := books.balances other wallet held
            rw [if_pos rfl] at found
            cases found
            simp only [System.paidIn, System.takenFrom] at balance ⊢
            rw [List.filter_cons_of_pos (by simp), List.map_cons, List.sum_cons, balance]
            omega
          · have balance := books.balances other after (by rwa [if_neg same] at found)
            simp only [System.paidIn, System.takenFrom] at balance ⊢
            rw [List.filter_cons_of_neg (by simpa using fun here => same here.symm), balance]
  | erase tenant =>
      refine ⟨books.unique, books.once, books.exact, books.known, ?_⟩
      intro other wallet found
      simp only [System.step, SortedMap.get_remove] at found
      by_cases same : other = tenant
      · simp [same] at found
      · exact books.balances other wallet (by rwa [if_neg same] at found)

def System.Named (s : System) (settlement : Settlement) : Prop :=
  ∀ line ∈ settlement.lines, (settlement.work, line.usage.seq) ∈ s.ledger.lines.map Line.key

def System.Done (s : System) (settlement : Settlement) : Prop :=
  ∀ line ∈ settlement.lines, (settlement.work, line.usage.seq) ∈ s.charges.map Charge.key

theorem step_keeps {s : System} (event : Event) (books : s.Books) :
    (∀ key ∈ s.ledger.lines.map Line.key, key ∈ (s.step event).ledger.lines.map Line.key) ∧
      ∀ key ∈ s.charges.map Charge.key, key ∈ (s.step event).charges.map Charge.key := by
  cases event with
  | log now settlement =>
      cases logged : logLines now settlement s.ledger.lines with
      | error refused => simp only [System.step, logged]; exact ⟨fun _ h => h, fun _ h => h⟩
      | ok answer =>
          simp only [System.step, logged]
          refine ⟨?_, fun _ member => member⟩
          intro key member
          obtain ⟨line, held, rfl⟩ := List.mem_map.mp member
          exact List.mem_map_of_mem ((logLines_logged logged books.unique).kept line held)
  | settle now settlement =>
      cases settled : settle now settlement s.ledger with
      | error refused => simp only [System.step, settled]; exact ⟨fun _ h => h, fun _ h => h⟩
      | ok answer =>
          obtain ⟨receipt, moved, ledger⟩ := answer
          obtain ⟨model, lines, logged, charged⟩ := settle_eq_ok.mp settled
          rw [step_settled settled]
          constructor
          · intro key member
            obtain ⟨line, held, rfl⟩ := List.mem_map.mp member
            have same := Table.column_update Line.key settlement.hits (Line.stamp now)
              (fun _ => rfl) lines
            rw [(charge_charged charged).lines, same]
            exact List.mem_map_of_mem ((logLines_logged logged books.unique).kept line held)
          · intro key member
            rw [List.map_append]
            exact List.mem_append_right _ member
  | grant tenant amount =>
      cases held : s.ledger.wallets.get tenant with
      | none => simp only [System.step, held]; exact ⟨fun _ h => h, fun _ h => h⟩
      | some wallet => simp only [System.step, held]; exact ⟨fun _ h => h, fun _ h => h⟩
  | erase tenant => exact ⟨fun _ h => h, fun _ h => h⟩

theorem named_final {s : System} {settlement : Settlement} (events : List Event) (books : s.Books)
    (named : s.Named settlement) : (Run.final System.step s events).Named settlement := by
  induction events generalizing s with
  | nil => exact named
  | cons event rest ih =>
      apply ih (books_step event books)
      exact fun line member => (step_keeps event books).1 _ (named line member)

theorem done_final {s : System} {settlement : Settlement} (events : List Event) (books : s.Books)
    (done : s.Done settlement) : (Run.final System.step s events).Done settlement := by
  induction events generalizing s with
  | nil => exact done
  | cons event rest ih =>
      apply ih (books_step event books)
      exact fun line member => (step_keeps event books).2 _ (done line member)

theorem books_final {s : System} (events : List Event) (books : s.Books) :
    (Run.final System.step s events).Books :=
  Run.invariant_of_step System.Books (fun _ event => books_step event) books events _
    (Run.final_mem_states _ _ _)

theorem hits_none {s : System} {settlement : Settlement} (books : s.Books)
    (done : s.Done settlement) : ∀ line ∈ s.ledger.lines, settlement.hits line = false := by
  intro line member
  cases hit : settlement.hits line with
  | false => rfl
  | true =>
      have unsettled := hits_unsettled hit
      simp only [Settlement.hits, Bool.and_eq_true, decide_eq_true_eq, List.contains_iff_mem]
        at hit
      obtain ⟨⟨work, _⟩, named⟩ := hit
      obtain ⟨rated, asked, same⟩ := List.mem_map.mp named
      have charged := done rated asked
      rw [same, ← work] at charged
      have settled := (books.exact line member).mpr charged
      simp [unsettled] at settled

theorem settle_done {s : System} {now : Nat} {settlement : Settlement} {receipt : Receipt}
    {moved : List Line} {ledger : Ledger} (books : s.Books)
    (settled : settle now settlement s.ledger = .ok (receipt, moved, ledger)) :
    (s.step (.settle now settlement)).Named settlement ∧
      (s.step (.settle now settlement)).Done settlement := by
  have after := books_step (.settle now settlement) books
  obtain ⟨model, lines, logged, charged⟩ := settle_eq_ok.mp settled
  have spec := charge_charged charged
  have same := Table.column_update Line.key settlement.hits (Line.stamp now)
    (fun _ => rfl) lines
  have named : (s.step (.settle now settlement)).Named settlement := by
    intro rated asked
    rw [step_settled settled, spec.lines, same]
    exact (logLines_logged logged books.unique).named rated asked
  refine ⟨named, ?_⟩
  intro rated asked
  obtain ⟨line, held, key⟩ := List.mem_map.mp (named rated asked)
  rw [← key]
  apply (after.exact line held).mp
  rw [step_settled settled, spec.lines] at held
  obtain ⟨old, _, rfl⟩ := Table.mem_update.mp held
  -- an unsettled line under one of the settlement's sequence numbers is hit
  cases hit : settlement.hits old with
  | true => simp [Line.stamp]
  | false =>
      simp only [hit, Bool.false_eq_true, if_false] at key ⊢
      simp only [Line.key, Prod.mk.injEq] at key
      cases stamp : old.settledAt with
      | some instant => rfl
      | none =>
          have asked_seq : old.rated.usage.seq ∈
              settlement.lines.map fun rated => rated.usage.seq :=
            List.mem_map.mpr ⟨rated, asked, key.2.symm⟩
          simp [Settlement.hits, stamp, key.1] at hit
          exact absurd (key.2.symm) (hit rated asked)

structure Settled (s : System) (settlement : Settlement) (receipt : Receipt) (moved : List Line)
    (next : System) : Prop where
  once : ∀ line ∈ moved, s.timesCharged line.key = 0 ∧ next.timesCharged line.key = 1
  others : ∀ key, key ∉ moved.map Line.key → next.timesCharged key = s.timesCharged key
  charged : receipt.charged = (moved.map fun line => line.rated.charged).sum
  debited : (next.ledger.wallets.get settlement.payer.tenant).map Wallet.balance =
    (s.ledger.wallets.get settlement.payer.tenant).map fun wallet =>
      wallet.balance - receipt.charged
  kept : ∀ tenant, tenant ≠ settlement.payer.tenant →
    (next.ledger.wallets.get tenant).map Wallet.balance =
      (s.ledger.wallets.get tenant).map Wallet.balance

theorem settle_settled {s : System} {now : Nat} {settlement : Settlement} {receipt : Receipt}
    {moved : List Line} {ledger : Ledger} (books : s.Books)
    (settled : settle now settlement s.ledger = .ok (receipt, moved, ledger)) :
    Settled s settlement receipt moved (s.step (.settle now settlement)) := by
  have after := books_step (.settle now settlement) books
  obtain ⟨model, lines, logged, charged⟩ := settle_eq_ok.mp settled
  have spec := charge_charged charged
  have keys : (s.step (.settle now settlement)).charges.map Charge.key =
      moved.map Line.key ++ s.charges.map Charge.key := by
    rw [step_settled settled, List.map_append, chargesOf_keys]
  have count : ∀ key, (s.step (.settle now settlement)).timesCharged key =
      (moved.map Line.key).count key + s.timesCharged key := by
    intro key
    rw [System.timesCharged, keys, List.count_append, System.timesCharged]
  refine ⟨?_, ?_, spec.charged, ?_, ?_⟩
  · intro line member
    have named : line.key ∈ moved.map Line.key := List.mem_map_of_mem member
    have at_most := List.nodup_iff_count_le_one.mp after.once line.key
    have hit_once := List.one_le_count_iff.mpr named
    have total := count line.key
    change (s.step (.settle now settlement)).timesCharged line.key ≤ 1 at at_most
    omega
  · intro key apart
    rw [count, List.count_eq_zero_of_not_mem apart, Nat.zero_add]
  · rw [step_settled settled, spec.wallets]
    cases held : s.ledger.wallets.get settlement.payer.tenant with
    | none => simp
    | some wallet =>
        have taken := spec.taken
        simp only [held, Option.isSome_some, if_true] at taken
        simp [taken]
  · intro tenant other
    rw [step_settled settled, spec.wallets]
    cases s.ledger.wallets.get tenant with
    | none => rfl
    | some wallet => simp [other]

theorem settle_again {s : System} {settlement : Settlement} {earlier : Nat} {before : Ledger}
    {receipt : Receipt} {moved : List Line} {ledger : Ledger} (now : Nat) (books : s.Books)
    (settled : settle earlier settlement before = .ok (receipt, moved, ledger))
    (named : s.Named settlement) (done : s.Done settlement) :
    settle now settlement s.ledger = .ok (⟨0, 0, 0⟩, [], s.ledger) := by
  obtain ⟨model, lines, logged, _⟩ := settle_eq_ok.mp settled
  have unhit := hits_none books done
  rw [settle_eq_ok]
  refine ⟨0, s.ledger.lines, logLines_again logged named, ?_⟩
  have none_moved : s.ledger.lines.filter settlement.hits = [] := by
    rw [List.filter_eq_nil_iff]
    intro line member
    simp [unhit line member]
  simp only [charge, settleLines, none_moved, Table.update_none _ unhit]
  rfl

structure ExactlyOnce (s : System) : Prop where
  atMostOnce : ∀ key, s.timesCharged key ≤ 1
  charged : ∀ line ∈ s.ledger.lines, line.settledAt.isSome = true ↔ s.timesCharged line.key = 1
  amounts : ∀ charge ∈ s.charges, ∃ line ∈ s.ledger.lines,
    line.key = charge.key ∧ line.rated.charged = charge.amount
  balances : ∀ tenant wallet, s.ledger.wallets.get tenant = some wallet →
    wallet.balance = s.paidIn tenant - s.takenFrom tenant
  settled : ∀ now settlement receipt moved ledger,
    settle now settlement s.ledger = .ok (receipt, moved, ledger) →
      Settled s settlement receipt moved (s.step (.settle now settlement))
  loggedAgain : ∀ now settlement answer, logLines now settlement s.ledger.lines = .ok answer →
    ∀ later again,
      let reached := Run.final System.step (s.step (.log now settlement)) later
      reached.step (.log again settlement) = reached
  settledAgain : ∀ now settlement answer, settle now settlement s.ledger = .ok answer →
    ∀ later again,
      let reached := Run.final System.step (s.step (.settle now settlement)) later
      reached.step (.log again settlement) = reached ∧
        reached.step (.settle again settlement) = reached ∧
          ∀ line ∈ settlement.lines,
            (settlement.work, line.usage.seq) ∈ reached.ledger.lines.map Line.key ∧
              reached.timesCharged (settlement.work, line.usage.seq) = 1

theorem timesCharged_eq_one_iff {s : System} (books : s.Books) (key : LineKey) :
    s.timesCharged key = 1 ↔ key ∈ s.charges.map Charge.key := by
  have at_most := List.nodup_iff_count_le_one.mp books.once key
  have positive := List.one_le_count_iff (a := key) (l := s.charges.map Charge.key)
  rw [System.timesCharged, ← positive]
  omega

/-- Any mixture of loggings, settlements, sweeps and their repeats charges each
line at most once, and exactly once when it was settled. -/
theorem settles_exactly_once (wallets : SortedMap String Wallet) (events : List Event) :
    ExactlyOnce (Run.final System.step (System.start wallets) events) := by
  have books := books_final events (books_start wallets)
  revert books
  generalize Run.final System.step (System.start wallets) events = s
  intro books
  refine ⟨?_, ?_, books.known, books.balances, ?_, ?_, ?_⟩
  · exact List.nodup_iff_count_le_one.mp books.once
  · intro line member
    rw [timesCharged_eq_one_iff books, books.exact line member]
  · intro now settlement receipt moved ledger settled
    exact settle_settled books settled
  · intro now settlement answer logged later again
    have named : (s.step (.log now settlement)).Named settlement := by
      intro line asked
      simp only [System.step, logged]
      exact (logLines_logged logged books.unique).named line asked
    have named_later := named_final later (books_step (.log now settlement) books) named
    exact step_logged_again (logLines_again logged named_later)
  · intro now settlement answer settled later again
    obtain ⟨receipt, moved, ledger⟩ := answer
    have next := books_step (.settle now settlement) books
    obtain ⟨named, done⟩ := settle_done books settled
    have named_later := named_final later next named
    have done_later := done_final later next done
    have books_later := books_final later next
    obtain ⟨model, lines, logged, _⟩ := settle_eq_ok.mp settled
    refine ⟨?_, ?_, ?_⟩
    · exact step_logged_again (logLines_again logged named_later)
    · rw [step_settled (settle_again again books_later settled named_later done_later)]
      rfl
    · intro line asked
      refine ⟨named_later line asked, ?_⟩
      rw [timesCharged_eq_one_iff books_later]
      exact done_later line asked

end Agentsfleet.Billing
