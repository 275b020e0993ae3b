import Agentsfleet.Library.Run
import Agentsfleet.Library.SortedMap
import Agentsfleet.Library.Table
import Agentsfleet.Tool.Detail

/-!
# The records the daemon stores

A post's records narrowed one at a time, those that fit what the event has left,
and the rows they become.  A lease keeps records only of its own fence, and the
rows of the event's other fences go first.
-/

set_option autoImplicit false

namespace Agentsfleet.Tool.Stored

open Agentsfleet.Core
open Agentsfleet.Library

/-- A record that passed its own bounds, and where it sat in the post. -/
structure Admissible where
  record : ToolCallRecord
  position : Nat
  bytes : Nat

structure Skip where
  position : Nat
  reason : DetailRejection
  bytes : Nat

/-- What one raw record narrows to; `read` is the parse of its text. -/
def narrow (read : String → Option ToolCallRecord) (raw : String) :
    Except DetailRejection ToolCallRecord :=
  match read raw with
  | none => .error .malformed
  | some record =>
      match record.validate with
      | .ok () => .ok record
      | .error reason => .error reason

/-- One turn of the loop in `narrowAll`. -/
def narrowOne (read : String → Option ToolCallRecord)
    (taken : SortedMap Nat Admissible × List Skip) (call : String × Nat) :
    SortedMap Nat Admissible × List Skip :=
  let (raw, position) := call
  match narrow read raw with
  | .ok record =>
      let admissible : Admissible := ⟨record, position, record.byteCount⟩
      let number := record.callNumber.toNat
      match taken.1.get number with
      | some earlier =>
          (taken.1.insert number admissible,
            taken.2 ++ [⟨earlier.position, .malformed, earlier.bytes⟩])
      | none => (taken.1.insert number admissible, taken.2)
  | .error reason => (taken.1, taken.2 ++ [⟨position, reason, raw.utf8ByteSize⟩])

def narrowAll (read : String → Option ToolCallRecord) (calls : List String) :
    SortedMap Nat Admissible × List Skip :=
  calls.zipIdx.foldl (narrowOne read) (SortedMap.empty, [])

/-- The loop of `within_budget`, `total` spent so far. -/
def withinBudget (replaced : SortedMap Nat Nat) :
    Nat → List (Nat × Admissible) → List Admissible × List Skip
  | _, [] => ([], [])
  | total, (number, admissible) :: rest =>
      let old := (replaced.get number).getD 0
      let after := total - old + admissible.bytes
      if detailEventMaxBytes < after then
        let left := withinBudget replaced total rest
        (left.1, ⟨admissible.position, .overBudget, admissible.bytes⟩ :: left.2)
      else
        let left := withinBudget replaced after rest
        (admissible :: left.1, left.2)

/-! ## The rows -/

/-- A row of `fleet.tool_calls`. -/
structure ToolCallRow where
  workspaceId : String
  fleetId : String
  eventId : String
  fencingToken : Int
  sequence : Nat
  arguments : Members
  truncatedArguments : Bool
  output : String
  outputLineCount : Nat
  truncated : Bool
  byteCount : Nat

/-- A lease this runner holds live, its row locked for the post's transaction. -/
structure LiveLease where
  fleetId : String
  workspaceId : String
  eventId : String
  fence : Int
  liveSeq : Int

/-- `fence_holds`: the lease's own token is the fleet's live one, and the one presented. -/
def LiveLease.holds (lease : LiveLease) (presented : Nat) : Bool :=
  decide (lease.liveSeq ≤ lease.fence) && decide (lease.fence = presented)

/-- A `bigint` column's value. -/
def asI64 (value : Nat) : Nat := min value (2 ^ 63 - 1)

abbrev RowKey := String × String × Int × Nat

def ToolCallRow.key (row : ToolCallRow) : RowKey :=
  (row.fleetId, row.eventId, row.fencingToken, row.sequence)

def rowOf (target : LiveLease) (admissible : Admissible) : ToolCallRow :=
  let record := admissible.record
  { workspaceId := target.workspaceId
    fleetId := target.fleetId
    eventId := target.eventId
    fencingToken := target.fence
    sequence := asI64 record.callNumber.toNat
    arguments := record.arguments
    truncatedArguments := record.truncatedArguments
    output := record.output
    outputLineCount := asI64 record.outputLineCount
    truncated := record.truncated
    byteCount := asI64 admissible.bytes }

/-- `ON CONFLICT … DO UPDATE SET` every column the record fills. -/
def replacing (old new : ToolCallRow) : ToolCallRow :=
  { old with
    arguments := new.arguments
    truncatedArguments := new.truncatedArguments
    output := new.output
    outputLineCount := new.outputLineCount
    truncated := new.truncated
    byteCount := new.byteCount }

/-- `UPSERT_RECORDS`. -/
def upsert (target : LiveLease) (kept : List Admissible) (rows : List ToolCallRow) :
    List ToolCallRow :=
  kept.foldl (fun rows admissible =>
    Table.upsert ToolCallRow.key replacing (rowOf target admissible) rows) rows

def ToolCallRow.isOf (fleetId eventId : String) (fence : Int) (row : ToolCallRow) : Bool :=
  decide (row.fleetId = fleetId ∧ row.eventId = eventId ∧ row.fencingToken = fence)

def ToolCallRow.inEvent (fleetId eventId : String) (row : ToolCallRow) : Bool :=
  decide (row.fleetId = fleetId ∧ row.eventId = eventId)

/-- `DELETE_OTHER_FENCES`. -/
def dropOthers (fleetId eventId : String) (fence : Int) (rows : List ToolCallRow) :
    List ToolCallRow :=
  rows.filter fun row => !row.inEvent fleetId eventId || decide (row.fencingToken = fence)

/-- What the lease already keeps, and what each posted call's record spends. -/
def spend (target : LiveLease) (numbers : List Nat) (rows : List ToolCallRow) :
    Nat × SortedMap Nat Nat :=
  let own := rows.filter (·.isOf target.fleetId target.eventId target.fence)
  ((own.map ToolCallRow.byteCount).sum,
    SortedMap.ofList ((own.filter fun row => numbers.contains row.sequence).map
      fun row => (row.sequence, row.byteCount)))

inductive Kept where
  | noLease
  | fenced
  | stored (kept : List Admissible) (cut : List Skip)

def keepRecords (lease : Option LiveLease) (presented : Nat) (candidates : SortedMap Nat Admissible)
    (rows : List ToolCallRow) : Kept × List ToolCallRow :=
  match lease with
  | none => (.noLease, rows)
  | some target =>
      if target.holds presented then
        let rows := dropOthers target.fleetId target.eventId target.fence rows
        let (spent, replaced) := spend target (candidates.keys.map asI64) rows
        let (kept, cut) := withinBudget replaced spent candidates.entries
        (.stored kept cut, upsert target kept rows)
      else (.fenced, rows)

structure Post where
  lease : Option LiveLease
  fencingToken : Nat
  calls : List String

inductive PostRefusal where
  | leaseNotFound
  | staleFence

structure ToolCallRecordsStored where
  storedCount : Nat
  skippedCount : Nat

/-- `record_tool_calls`: the reply, the skips it logs, and the rows after. -/
def recordToolCalls (read : String → Option ToolCallRecord) (post : Post)
    (rows : List ToolCallRow) :
    Except PostRefusal (ToolCallRecordsStored × List Skip) × List ToolCallRow :=
  let (candidates, skipped) := narrowAll read post.calls
  match keepRecords post.lease post.fencingToken candidates rows with
  | (.noLease, rows) => (.error .leaseNotFound, rows)
  | (.fenced, rows) => (.error .staleFence, rows)
  | (.stored kept cut, rows) =>
      (.ok (⟨kept.length, (skipped ++ cut).length⟩, skipped ++ cut), rows)

/-- What writes the table.  A transaction that fails leaves it as it was. -/
inductive StoreEvent where
  | posted (post : Post)
  /-- A lease settles its event (`drop_other_fences`). -/
  | settled (fleetId eventId : String) (fence : Int)
  /-- The event goes, and its records with it. -/
  | deleted (fleetId eventId : String)

def step (read : String → Option ToolCallRecord) (rows : List ToolCallRow) :
    StoreEvent → List ToolCallRow
  | .posted post => (recordToolCalls read post rows).2
  | .settled fleetId eventId fence => dropOthers fleetId eventId fence rows
  | .deleted fleetId eventId => rows.filter fun row => !row.inEvent fleetId eventId

/-! ## What a post's records become -/

/-- The records narrowed so far, of the first `count` of the post. -/
structure Narrowed (read : String → Option ToolCallRecord) (calls : List String) (count : Nat)
    (taken : SortedMap Nat Admissible × List Skip) : Prop where
  placed : (taken.1.values.map Admissible.position ++ taken.2.map Skip.position).Perm
    (List.range count)
  kept : ∀ number admissible, taken.1.get number = some admissible →
    number = admissible.record.callNumber.toNat ∧
      admissible.bytes = admissible.record.byteCount ∧
      ∃ raw, calls[admissible.position]? = some raw ∧ narrow read raw = .ok admissible.record
  reasons : ∀ skip ∈ taken.2, skip.reason ≠ .overBudget

theorem narrow_valid {read : String → Option ToolCallRecord} {raw : String}
    {record : ToolCallRecord} (narrowed : narrow read raw = .ok record) :
    record.validate = .ok () := by
  rw [narrow] at narrowed
  split at narrowed
  · nomatch narrowed
  · split at narrowed
    next valid =>
      rw [Except.ok.injEq] at narrowed
      exact narrowed ▸ valid
    · nomatch narrowed

theorem narrow_reason {read : String → Option ToolCallRecord} {raw : String}
    {reason : DetailRejection} (refused : narrow read raw = .error reason) :
    reason ≠ .overBudget := by
  rw [narrow] at refused
  split at refused
  · cases refused
    intro same
    cases same
  · split at refused
    · cases refused
    next invalid =>
      cases refused
      rw [ToolCallRecord.validate] at invalid
      repeat' split at invalid
      all_goals cases invalid
      all_goals
        intro same
        cases same

theorem callNumber_le {record : ToolCallRecord} (valid : record.validate = .ok ()) :
    record.callNumber.toNat ≤ callNumberMax := by
  rw [ToolCallRecord.validate] at valid
  split at valid
  · cases valid
  next within => exact Nat.not_lt.mp (not_or.mp within).2

theorem Narrowed.next {read : String → Option ToolCallRecord} {calls : List String} {count : Nat}
    {taken : SortedMap Nat Admissible × List Skip} (narrowed : Narrowed read calls count taken)
    {raw : String} (here : calls[count]? = some raw) :
    Narrowed read calls (count + 1) (narrowOne read taken (raw, count)) := by
  obtain ⟨placed, kept, reasons⟩ := narrowed
  rw [narrowOne]
  dsimp only
  have more_reasons {skip : Skip} (new : skip.reason ≠ .overBudget) :
      ∀ other ∈ taken.2 ++ [skip], other.reason ≠ .overBudget := by
    intro other member
    rcases List.mem_append.mp member with before | last
    · exact reasons other before
    · exact List.mem_singleton.mp last ▸ new
  cases made : narrow read raw with
  | error reason =>
      refine ⟨?_, kept, more_reasons (narrow_reason made)⟩
      rw [List.map_append, ← List.append_assoc, List.range_succ]
      exact placed.append_right _
  | ok record =>
      have brought := (taken.1.values_insert_perm record.callNumber.toNat
        ⟨record, count, record.byteCount⟩).map Admissible.position
      rw [List.map_append, List.map_cons] at brought
      have known : ∀ number admissible,
          (taken.1.insert record.callNumber.toNat ⟨record, count, record.byteCount⟩).get number =
              some admissible →
            number = admissible.record.callNumber.toNat ∧
              admissible.bytes = admissible.record.byteCount ∧
              ∃ raw, calls[admissible.position]? = some raw ∧
                narrow read raw = .ok admissible.record := by
        intro number admissible found
        rw [SortedMap.get_insert] at found
        split at found
        next same =>
          rw [Option.some.injEq] at found
          rw [← found, same]
          exact ⟨rfl, rfl, raw, here, made⟩
        next => exact kept number admissible found
      dsimp only
      cases earlier : taken.1.get record.callNumber.toNat with
      | none =>
          refine ⟨?_, known, reasons⟩
          rw [earlier] at brought
          have more := (brought.append_right (taken.2.map Skip.position)).trans
            (placed.cons count)
          rw [List.range_succ]
          exact more.trans (List.perm_append_singleton count (List.range count)).symm
      | some replaced =>
          refine ⟨?_, known, more_reasons nofun⟩
          rw [earlier] at brought
          have more := (brought.append_right (taken.2.map Skip.position)).trans
            (placed.cons count)
          rw [List.range_succ, List.map_append]
          refine List.Perm.trans ?_
            (more.trans (List.perm_append_singleton count (List.range count)).symm)
          rw [← List.append_assoc]
          exact (List.perm_append_singleton _ _).trans (List.Perm.refl _)

theorem narrowAll_narrowed (read : String → Option ToolCallRecord) (calls : List String) :
    Narrowed read calls calls.length (narrowAll read calls) := by
  have every : ∀ (rest : List String) (count : Nat) (taken : SortedMap Nat Admissible × List Skip),
      Narrowed read calls count taken → calls.drop count = rest →
        Narrowed read calls (count + rest.length)
          ((rest.zipIdx count).foldl (narrowOne read) taken) := by
    intro rest
    induction rest with
    | nil => exact fun _ _ narrowed _ => narrowed
    | cons raw rest ih =>
        intro count taken narrowed left
        have here : calls[count]? = some raw := by
          rw [← List.head?_drop, left, List.head?_cons]
        have after : calls.drop (count + 1) = rest := by
          rw [← List.tail_drop, left, List.tail_cons]
        rw [List.zipIdx_cons, List.foldl_cons, List.length_cons, Nat.add_comm rest.length,
          ← Nat.add_assoc]
        exact ih (count + 1) _ (narrowed.next here) after
  have start : Narrowed read calls 0 (SortedMap.empty, []) :=
    ⟨List.Perm.refl _, fun _ _ found => (nomatch found), fun _ member => (nomatch member)⟩
  have all := every calls 0 _ start (List.drop_zero)
  rwa [Nat.zero_add] at all

/-! ## What an event keeps -/

def spends (fleetId eventId : String) (row : ToolCallRow) : Nat :=
  if row.inEvent fleetId eventId then row.byteCount else 0

def eventBytes (fleetId eventId : String) (rows : List ToolCallRow) : Nat :=
  Table.weight (spends fleetId eventId) rows

theorem replacing_key (old row : ToolCallRow) : (replacing old row).key = old.key := rfl

theorem key_event {row other : ToolCallRow} (same : row.key = other.key) :
    row.fleetId = other.fleetId ∧ row.eventId = other.eventId ∧
      row.fencingToken = other.fencingToken ∧ row.sequence = other.sequence := by
  simpa only [ToolCallRow.key, Prod.mk.injEq] using same

theorem replacing_spends (fleetId eventId : String) {old row : ToolCallRow}
    (same : old.key = row.key) :
    spends fleetId eventId (replacing old row) = spends fleetId eventId row := by
  obtain ⟨fleet, event, _⟩ := key_event same
  have here : (replacing old row).inEvent fleetId eventId = row.inEvent fleetId eventId := by
    rw [ToolCallRow.inEvent, ToolCallRow.inEvent, decide_eq_decide, ← fleet, ← event]
    rfl
  rw [spends, spends, here]
  rfl

theorem byteCount_eq {record : ToolCallRecord} (valid : record.validate = .ok ()) :
    asI64 record.byteCount = record.byteCount := by
  rw [ToolCallRecord.validate] at valid
  split at valid
  · cases valid
  split at valid
  · cases valid
  split at valid
  · cases valid
  next arguments =>
    split at valid
    · cases valid
    next output =>
      rw [detailFieldMaxBytes] at arguments output
      rw [asI64, ToolCallRecord.byteCount, detailRecordMinBytes]
      omega

theorem eventBytes_upsert (target : LiveLease) (admissible : Admissible)
    (rows : List ToolCallRow) :
    eventBytes target.fleetId target.eventId
        (Table.upsert ToolCallRow.key replacing (rowOf target admissible) rows) +
        ((Table.find ToolCallRow.key (rowOf target admissible).key rows).elim 0
          ToolCallRow.byteCount) =
      eventBytes target.fleetId target.eventId rows + asI64 admissible.bytes := by
  have merged : ∀ old : ToolCallRow, old.key = (rowOf target admissible).key →
      spends target.fleetId target.eventId (replacing old (rowOf target admissible)) =
        spends target.fleetId target.eventId (rowOf target admissible) :=
    fun old same => replacing_spends target.fleetId target.eventId same
  have swapped :=
    @Table.weight_upsert _ _ _ _ _ rows (spends target.fleetId target.eventId) _ merged
  have new : spends target.fleetId target.eventId (rowOf target admissible) =
      asI64 admissible.bytes := by
    rw [spends, ToolCallRow.inEvent, if_pos (decide_eq_true ⟨rfl, rfl⟩)]
    rfl
  rw [new] at swapped
  rw [eventBytes, eventBytes, ← swapped]
  cases found : Table.find ToolCallRow.key (rowOf target admissible).key rows with
  | none => rfl
  | some old =>
      obtain ⟨fleet, event, _⟩ := key_event (Table.mem_of_find found).2
      rw [Option.elim_some, Option.elim_some, spends, ToolCallRow.inEvent,
        if_pos (decide_eq_true ⟨fleet, event⟩)]

theorem byteCount_le (target : LiveLease) (admissible : Admissible) (rows : List ToolCallRow) :
    ((Table.find ToolCallRow.key (rowOf target admissible).key rows).elim 0
        ToolCallRow.byteCount) ≤ eventBytes target.fleetId target.eventId rows := by
  cases found : Table.find ToolCallRow.key (rowOf target admissible).key rows with
  | none => exact Nat.zero_le _
  | some old =>
      obtain ⟨held, same⟩ := Table.mem_of_find found
      obtain ⟨fleet, event, _⟩ := key_event same
      have below := Table.le_weight_of_mem (spends target.fleetId target.eventId) held
      rwa [spends, ToolCallRow.inEvent, if_pos (decide_eq_true ⟨fleet, event⟩)] at below

/-- A posted record as the budget reads it: its own number, its own size. -/
def Fresh (entry : Nat × Admissible) : Prop :=
  entry.1 = entry.2.record.callNumber.toNat ∧ entry.1 ≤ callNumberMax ∧
    asI64 entry.2.bytes = entry.2.bytes

theorem asI64_eq {number : Nat} (bounded : number ≤ callNumberMax) : asI64 number = number :=
  Nat.min_eq_left bounded

/-- Two calls of a post have different numbers, and so their rows have. -/
theorem rowOf_apart (target : LiveLease) {first second : Nat × Admissible} (fresh : Fresh first)
    (other : Fresh second) (apart : first.1 ≠ second.1) :
    (rowOf target first.2).key ≠ (rowOf target second.2).key := by
  intro same
  have numbers := (key_event same).2.2.2
  obtain ⟨own, bounded, _⟩ := fresh
  obtain ⟨named, otherBounded, _⟩ := other
  dsimp only [rowOf] at numbers
  rw [← own, ← named, asI64_eq bounded, asI64_eq otherBounded] at numbers
  exact apart numbers

/-- What `replaced` has to say of the calls still to be judged. -/
def Replaces (target : LiveLease) (replaced : SortedMap Nat Nat) (rows : List ToolCallRow)
    (entry : Nat × Admissible) : Prop :=
  replaced.get entry.1 =
    (Table.find ToolCallRow.key (rowOf target entry.2).key rows).map ToolCallRow.byteCount

theorem withinBudget_fits {target : LiveLease} {replaced : SortedMap Nat Nat}
    {entries : List (Nat × Admissible)} {rows : List ToolCallRow}
    (ascending : entries.Pairwise fun a b => a.1 < b.1)
    (fresh : ∀ entry ∈ entries, Fresh entry)
    (replaces : ∀ entry ∈ entries, Replaces target replaced rows entry)
    (within : eventBytes target.fleetId target.eventId rows ≤ detailEventMaxBytes) :
    eventBytes target.fleetId target.eventId
        (upsert target (withinBudget replaced (eventBytes target.fleetId target.eventId rows)
          entries).1 rows) ≤ detailEventMaxBytes := by
  induction entries generalizing rows with
  | nil => exact within
  | cons entry rest ih =>
      obtain ⟨number, admissible⟩ := entry
      obtain ⟨above, others⟩ := List.pairwise_cons.mp ascending
      obtain ⟨here, later⟩ := List.forall_mem_cons.mp fresh
      obtain ⟨standing, unjudged⟩ := List.forall_mem_cons.mp replaces
      rw [withinBudget]
      dsimp only
      split
      · exact ih others later unjudged within
      next fits =>
        have swapped := eventBytes_upsert target admissible rows
        have least := byteCount_le target admissible rows
        have old : (replaced.get number).getD 0 =
            (Table.find ToolCallRow.key (rowOf target admissible).key rows).elim 0
              ToolCallRow.byteCount := by
          rw [standing]
          cases Table.find ToolCallRow.key (rowOf target admissible).key rows with
          | none => rfl
          | some row => rfl
        have small : asI64 admissible.bytes = admissible.bytes := here.2.2
        rw [small] at swapped
        have total : eventBytes target.fleetId target.eventId rows -
            (replaced.get number).getD 0 + admissible.bytes =
              eventBytes target.fleetId target.eventId
                (Table.upsert ToolCallRow.key replacing (rowOf target admissible) rows) := by
          rw [old]
          omega
        rw [total] at fits ⊢
        rw [upsert, List.foldl_cons]
        refine ih others later ?_ (Nat.not_lt.mp fits)
        intro other member
        rw [Replaces, Table.find_upsert replacing_key, if_neg, unjudged other member]
        intro same
        exact rowOf_apart target here (later other member) (ne_of_lt (above other member)) same.symm

theorem withinBudget_accounts (replaced : SortedMap Nat Nat) (total : Nat)
    (entries : List (Nat × Admissible)) :
    (withinBudget replaced total entries).1.Sublist (entries.map Prod.snd) ∧
      ((withinBudget replaced total entries).1.map Admissible.position ++
        (withinBudget replaced total entries).2.map Skip.position).Perm
          (entries.map fun entry => entry.2.position) := by
  induction entries generalizing total with
  | nil => exact ⟨List.Sublist.slnil, List.Perm.refl _⟩
  | cons entry rest ih =>
      obtain ⟨number, admissible⟩ := entry
      rw [withinBudget]
      dsimp only
      split
      · obtain ⟨inside, placed⟩ := ih total
        exact ⟨inside.cons _, List.perm_middle.trans (placed.cons _)⟩
      · obtain ⟨inside, placed⟩ :=
          ih (total - (replaced.get number).getD 0 + admissible.bytes)
        exact ⟨inside.cons_cons _, placed.cons _⟩

theorem withinBudget_over (target : LiveLease) (replaced : SortedMap Nat Nat) (total : Nat)
    {entries : List (Nat × Admissible)} (ascending : entries.Pairwise fun a b => a.1 < b.1)
    (fresh : ∀ entry ∈ entries, Fresh entry) :
    ∀ skip ∈ (withinBudget replaced total entries).2, ∃ entry ∈ entries,
      entry.2.position = skip.position ∧
        ∀ admissible ∈ (withinBudget replaced total entries).1,
          (rowOf target admissible).key ≠ (rowOf target entry.2).key := by
  induction entries generalizing total with
  | nil => exact fun _ member => (nomatch member)
  | cons first rest ih =>
      obtain ⟨above, others⟩ := List.pairwise_cons.mp ascending
      obtain ⟨here, later⟩ := List.forall_mem_cons.mp fresh
      have differ : ∀ entry ∈ rest, (rowOf target first.2).key ≠ (rowOf target entry.2).key :=
        fun entry member => rowOf_apart target here (later entry member)
          (ne_of_lt (above entry member))
      rw [withinBudget]
      dsimp only
      split
      · intro skip member
        rcases List.mem_cons.mp member with rfl | listed
        · refine ⟨first, List.mem_cons_self, rfl, fun admissible kept => ?_⟩
          have inside := (withinBudget_accounts replaced total rest).1.subset kept
          obtain ⟨entry, held, rfl⟩ := List.mem_map.mp inside
          exact (differ entry held).symm
        · obtain ⟨entry, held, same⟩ := ih total others later skip listed
          exact ⟨entry, List.mem_cons_of_mem _ held, same⟩
      · intro skip member
        obtain ⟨entry, held, same, apart⟩ :=
          ih (total - (replaced.get first.1).getD 0 + first.2.bytes) others later skip member
        refine ⟨entry, List.mem_cons_of_mem _ held, same, fun admissible kept => ?_⟩
        rcases List.mem_cons.mp kept with rfl | inside
        · exact differ entry held
        · exact apart admissible inside

/-! ## The rows a post leaves -/

theorem upsert_others (target : LiveLease) {kept : List Admissible} {rows : List ToolCallRow}
    {key : RowKey} (apart : ∀ admissible ∈ kept, (rowOf target admissible).key ≠ key) :
    Table.find ToolCallRow.key key (upsert target kept rows) =
      Table.find ToolCallRow.key key rows := by
  induction kept generalizing rows with
  | nil => rfl
  | cons admissible rest ih =>
      obtain ⟨here, others⟩ := List.forall_mem_cons.mp apart
      rw [upsert, List.foldl_cons, ← upsert, ih others, Table.find_upsert replacing_key,
        if_neg (Ne.symm here)]

theorem upsert_written (target : LiveLease) {kept : List Admissible} (rows : List ToolCallRow)
    (apart : kept.Pairwise fun a b => (rowOf target a).key ≠ (rowOf target b).key) :
    ∀ admissible ∈ kept, ∃ row,
      Table.find ToolCallRow.key (rowOf target admissible).key (upsert target kept rows) =
          some row ∧ replacing row (rowOf target admissible) = row := by
  induction kept generalizing rows with
  | nil => exact fun _ member => nomatch member
  | cons first rest ih =>
      obtain ⟨here, others⟩ := List.pairwise_cons.mp apart
      intro admissible member
      rw [upsert, List.foldl_cons, ← upsert]
      rcases List.mem_cons.mp member with rfl | later
      · have untouched : ∀ other ∈ rest,
            (rowOf target other).key ≠ (rowOf target admissible).key :=
          fun other inside => Ne.symm (here other inside)
        rw [upsert_others target untouched, Table.find_upsert replacing_key, if_pos rfl]
        refine ⟨_, rfl, ?_⟩
        cases Table.find ToolCallRow.key (rowOf target admissible).key rows with
        | none => rfl
        | some old => rfl
      · exact ih _ others admissible later

structure Sound (rows : List ToolCallRow) : Prop where
  keys : (rows.map ToolCallRow.key).Nodup
  fences : ∀ first ∈ rows, ∀ second ∈ rows, first.fleetId = second.fleetId →
    first.eventId = second.eventId → first.fencingToken = second.fencingToken
  budget : ∀ fleetId eventId, eventBytes fleetId eventId rows ≤ detailEventMaxBytes

theorem Sound.one {rows : List ToolCallRow} (sound : Sound rows) :
    (rows.map fun row => (row.fleetId, row.eventId, row.sequence)).Nodup := by
  refine List.Nodup.map_on ?_ sound.keys.of_map
  intro first held second also same
  simp only [Prod.mk.injEq] at same
  obtain ⟨fleet, event, sequence⟩ := same
  have fence := sound.fences first held second also fleet event
  refine List.inj_on_of_nodup_map sound.keys held also ?_
  rw [ToolCallRow.key, ToolCallRow.key, fleet, event, fence, sequence]

theorem Sound.filter {rows : List ToolCallRow} (sound : Sound rows) (keep : ToolCallRow → Bool) :
    Sound (rows.filter keep) := by
  refine ⟨sound.keys.sublist (List.filter_sublist.map _), ?_, ?_⟩
  · intro first held second also
    exact sound.fences first (List.mem_of_mem_filter held) second (List.mem_of_mem_filter also)
  · intro fleetId eventId
    have fewer : (rows.filter keep).Sublist rows := List.filter_sublist
    exact Nat.le_trans (Table.weight_sublist_le _ fewer) (sound.budget fleetId eventId)

def Only (target : LiveLease) (rows : List ToolCallRow) : Prop :=
  ∀ row ∈ rows, row.inEvent target.fleetId target.eventId = true →
    row.fencingToken = target.fence

theorem only_dropOthers (target : LiveLease) (rows : List ToolCallRow) :
    Only target (dropOthers target.fleetId target.eventId target.fence rows) := by
  intro row member here
  have kept := (List.mem_filter.mp member).2
  rw [here] at kept
  simpa using kept

theorem spend_fst {target : LiveLease} {rows : List ToolCallRow} (only : Only target rows)
    (numbers : List Nat) :
    (spend target numbers rows).1 = eventBytes target.fleetId target.eventId rows := by
  rw [spend, eventBytes]
  dsimp only
  induction rows with
  | nil => rfl
  | cons row rest ih =>
      obtain ⟨here, others⟩ := List.forall_mem_cons.mp only
      have split_off : Table.weight (spends target.fleetId target.eventId) (row :: rest) =
          spends target.fleetId target.eventId row +
            Table.weight (spends target.fleetId target.eventId) rest := by
        rw [Table.weight, List.map_cons, List.sum_cons, ← Table.weight]
      rw [List.filter_cons, split_off, ← ih others, spends]
      by_cases event : row.inEvent target.fleetId target.eventId = true
      · have own : row.isOf target.fleetId target.eventId target.fence = true := by
          have parts := of_decide_eq_true event
          exact decide_eq_true ⟨parts.1, parts.2, here event⟩
        rw [if_pos own, if_pos event, List.map_cons, List.sum_cons]
      · have other : row.isOf target.fleetId target.eventId target.fence ≠ true := by
          intro own
          have parts := of_decide_eq_true own
          exact event (decide_eq_true ⟨parts.1, parts.2.1⟩)
        rw [if_neg other, if_neg event, Nat.zero_add]

theorem spend_snd {target : LiveLease} {rows : List ToolCallRow} {numbers : List Nat}
    (keys : (rows.map ToolCallRow.key).Nodup) {admissible : Admissible} {number : Nat}
    (named : asI64 admissible.record.callNumber.toNat = number) (posted : number ∈ numbers) :
    (spend target numbers rows).2.get number =
      (Table.find ToolCallRow.key (rowOf target admissible).key rows).map
        ToolCallRow.byteCount := by
  have own : ∀ row : ToolCallRow, row.key = (rowOf target admissible).key ↔
      row.isOf target.fleetId target.eventId target.fence = true ∧ row.sequence = number := by
    intro row
    rw [ToolCallRow.isOf, decide_eq_true_eq, ← named]
    simp only [ToolCallRow.key, rowOf, Prod.mk.injEq, and_assoc]
  rw [spend]
  dsimp only
  rw [SortedMap.get_ofList]
  · clear keys
    induction rows with
    | nil => rfl
    | cons row rest ih =>
        rw [Table.find_cons, List.filter_cons]
        by_cases mine : row.isOf target.fleetId target.eventId target.fence = true
        · rw [if_pos mine, List.filter_cons]
          by_cases same : row.sequence = number
          · have asked : numbers.contains row.sequence = true := by
              rw [same]
              exact List.contains_iff_mem.mpr posted
            rw [if_pos asked, if_pos ((own row).mpr ⟨mine, same⟩), List.map_cons,
              SortedMap.lookup, if_pos same]
            rfl
          · have apart : row.key ≠ (rowOf target admissible).key :=
              fun equal => same ((own row).mp equal).2
            rw [if_neg apart, ← ih]
            split
            · rw [List.map_cons, SortedMap.lookup, if_neg same]
            · rfl
        · have apart : row.key ≠ (rowOf target admissible).key :=
            fun equal => mine ((own row).mp equal).1
          rw [if_neg mine, if_neg apart, ih]
  · rw [List.pairwise_map]
    have apart : rows.Pairwise fun a b => a.key ≠ b.key := List.pairwise_map.mp keys
    refine (apart.filter _).filter _ |>.imp_of_mem ?_
    intro first second held also differ same
    have same : first.sequence = second.sequence := same
    have mine := of_decide_eq_true (List.mem_filter.mp (List.mem_of_mem_filter held)).2
    have others := of_decide_eq_true (List.mem_filter.mp (List.mem_of_mem_filter also)).2
    apply differ
    rw [ToolCallRow.key, ToolCallRow.key, mine.1, mine.2.1, mine.2.2, others.1, others.2.1,
      others.2.2, same]

theorem Narrowed.fresh {read : String → Option ToolCallRecord} {calls : List String} {count : Nat}
    {taken : SortedMap Nat Admissible × List Skip} (narrowed : Narrowed read calls count taken) :
    ∀ entry ∈ taken.1.entries, Fresh entry := by
  rintro ⟨number, admissible⟩ member
  obtain ⟨named, sized, raw, _, made⟩ :=
    narrowed.kept number admissible ((taken.1.mem_entries_iff _ _).mp member)
  have valid := narrow_valid made
  have bounded := callNumber_le valid
  refine ⟨named, named ▸ bounded, ?_⟩
  dsimp only
  rw [sized, byteCount_eq valid]

theorem upsert_origin (target : LiveLease) (kept : List Admissible) {rows : List ToolCallRow} :
    ∀ row ∈ upsert target kept rows, row ∈ rows ∨
      row.fleetId = target.fleetId ∧ row.eventId = target.eventId ∧
        row.fencingToken = target.fence := by
  have every : ∀ (kept : List Admissible) (current : List ToolCallRow),
      (∀ row ∈ current, row ∈ rows ∨ row.fleetId = target.fleetId ∧
        row.eventId = target.eventId ∧ row.fencingToken = target.fence) →
      ∀ row ∈ upsert target kept current, row ∈ rows ∨ row.fleetId = target.fleetId ∧
        row.eventId = target.eventId ∧ row.fencingToken = target.fence := by
    intro kept
    induction kept with
    | nil => exact fun _ held => held
    | cons admissible rest ih =>
        intro current held
        rw [upsert, List.foldl_cons, ← upsert]
        refine ih _ (Table.forall_upsert (.inr ⟨rfl, rfl, rfl⟩) ?_ held)
        intro old same _
        obtain ⟨fleet, event, fence, _⟩ := key_event same
        exact .inr ⟨fleet, event, fence⟩
  exact every kept rows fun row member => .inl member

theorem only_upsert {target : LiveLease} {rows : List ToolCallRow} (only : Only target rows)
    (kept : List Admissible) : Only target (upsert target kept rows) := by
  intro row member here
  rcases upsert_origin target kept row member with old | new
  · exact only row old here
  · exact new.2.2

theorem upsert_keys (target : LiveLease) (kept : List Admissible) {rows : List ToolCallRow}
    (keys : (rows.map ToolCallRow.key).Nodup) :
    ((upsert target kept rows).map ToolCallRow.key).Nodup := by
  induction kept generalizing rows with
  | nil => exact keys
  | cons admissible rest ih =>
      rw [upsert, List.foldl_cons, ← upsert]
      exact ih (Table.upsert_nodup replacing_key _ keys)

theorem upsert_elsewhere {target : LiveLease} {fleetId eventId : String}
    (other : ¬ (target.fleetId = fleetId ∧ target.eventId = eventId)) (kept : List Admissible)
    (rows : List ToolCallRow) :
    eventBytes fleetId eventId (upsert target kept rows) = eventBytes fleetId eventId rows := by
  induction kept generalizing rows with
  | nil => rfl
  | cons admissible rest ih =>
      have outside : ∀ row : ToolCallRow, row.key = (rowOf target admissible).key →
          spends fleetId eventId row = 0 := by
        intro row same
        obtain ⟨fleet, event, _⟩ := key_event same
        rw [spends, ToolCallRow.inEvent, if_neg]
        rw [decide_eq_true_eq, fleet, event]
        exact other
      have merged : ∀ old : ToolCallRow, old.key = (rowOf target admissible).key →
          spends fleetId eventId (replacing old (rowOf target admissible)) =
            spends fleetId eventId (rowOf target admissible) :=
        fun old same => replacing_spends fleetId eventId same
      have swapped := @Table.weight_upsert _ _ _ _ _ rows (spends fleetId eventId) _ merged
      have none_before : (Table.find ToolCallRow.key (rowOf target admissible).key rows).elim 0
          (spends fleetId eventId) = 0 := by
        cases found : Table.find ToolCallRow.key (rowOf target admissible).key rows with
        | none => rfl
        | some old => exact outside old (Table.mem_of_find found).2
      rw [none_before, outside _ rfl] at swapped
      rw [upsert, List.foldl_cons, ← upsert, ih]
      exact swapped

structure Written (read : String → Option ToolCallRecord) (post : Post) (target : LiveLease)
    (rows after : List ToolCallRow) (kept : List Admissible) (skipped : List Skip) : Prop where
  lease : post.lease = some target
  placed : (kept.map Admissible.position ++ skipped.map Skip.position).Perm
    (List.range post.calls.length)
  posted : ∀ admissible ∈ kept, ∃ raw, post.calls[admissible.position]? = some raw ∧
    narrow read raw = .ok admissible.record
  written : ∀ admissible ∈ kept, ∃ row,
    Table.find ToolCallRow.key (rowOf target admissible).key after = some row ∧
      replacing row (rowOf target admissible) = row
  /-- The rows of the event's other fences went. -/
  left : ∀ key : RowKey, (∀ admissible ∈ kept, (rowOf target admissible).key ≠ key) →
    (key.1 = target.fleetId → key.2.1 = target.eventId → key.2.2.1 = target.fence) →
      Table.find ToolCallRow.key key after = Table.find ToolCallRow.key key rows
  /-- A record past the budget leaves the one it would have replaced. -/
  cut : ∀ skip ∈ skipped, skip.reason = .overBudget → ∃ admissible : Admissible,
    (∃ raw, post.calls[skip.position]? = some raw ∧ narrow read raw = .ok admissible.record) ∧
      Table.find ToolCallRow.key (rowOf target admissible).key after =
        Table.find ToolCallRow.key (rowOf target admissible).key rows

/-- A refused post leaves the rows; an answered one tells how many records it stored and how
many it skipped. -/
def PostKept (read : String → Option ToolCallRecord) (post : Post) (rows : List ToolCallRow) :
    Prop :=
  match recordToolCalls read post rows with
  | (.error _, after) => after = rows
  | (.ok (reply, skipped), after) =>
      ∃ target kept, reply = ⟨kept.length, skipped.length⟩ ∧
        Written read post target rows after kept skipped

theorem dropOthers_find (target : LiveLease) {rows : List ToolCallRow} {key : RowKey}
    (own : key.1 = target.fleetId → key.2.1 = target.eventId → key.2.2.1 = target.fence) :
    Table.find ToolCallRow.key key
        (dropOthers target.fleetId target.eventId target.fence rows) =
      Table.find ToolCallRow.key key rows := by
  rw [dropOthers]
  induction rows with
  | nil => rfl
  | cons row rest ih =>
      rw [List.filter_cons, Table.find_cons]
      split
      · rw [Table.find_cons, ih]
      next gone =>
        rw [if_neg, ih]
        intro same
        subst same
        apply gone
        rw [Bool.or_eq_true, Bool.not_eq_true', ToolCallRow.inEvent, decide_eq_false_iff_not,
          decide_eq_true_eq]
        by_cases here : row.fleetId = target.fleetId ∧ row.eventId = target.eventId
        · exact .inr (own here.1 here.2)
        · exact .inl here

theorem Sound.posted {rows : List ToolCallRow} (sound : Sound rows)
    (read : String → Option ToolCallRecord) (post : Post) :
    Sound (recordToolCalls read post rows).2 ∧ PostKept read post rows := by
  have narrowed := narrowAll_narrowed read post.calls
  have fresh := narrowed.fresh
  rw [PostKept, recordToolCalls]
  generalize narrowAll read post.calls = taken at narrowed fresh ⊢
  obtain ⟨candidates, skipped⟩ := taken
  dsimp only at fresh ⊢
  cases held : post.lease with
  | none => exact ⟨sound, rfl⟩
  | some target =>
      by_cases holds : target.holds post.fencingToken = true
      · rw [keepRecords, if_pos holds]
        dsimp only
        have only := only_dropOthers target rows
        have clean : Sound (dropOthers target.fleetId target.eventId target.fence rows) :=
          sound.filter _
        have drop (key : RowKey) := @dropOthers_find target rows key
        generalize dropOthers target.fleetId target.eventId target.fence rows = left
          at only clean drop
        have spent := spend_fst only (candidates.keys.map asI64)
        generalize spends : spend target (candidates.keys.map asI64) left = spending at spent
        obtain ⟨total, replaced⟩ := spending
        dsimp only at spent ⊢
        have replaces : ∀ entry ∈ candidates.entries, Replaces target replaced left entry := by
          intro entry member
          obtain ⟨named, bounded, _⟩ := fresh entry member
          have posted : entry.1 ∈ candidates.keys.map asI64 :=
            List.mem_map.mpr ⟨entry.1, List.mem_map_of_mem member, asI64_eq bounded⟩
          have same : asI64 entry.2.record.callNumber.toNat = entry.1 := by
            rw [← named, asI64_eq bounded]
          rw [Replaces, ← spend_snd clean.keys same posted, spends]
        have fits := withinBudget_fits candidates.ascending fresh replaces
          (clean.budget target.fleetId target.eventId)
        obtain ⟨inside, placed⟩ := withinBudget_accounts replaced total candidates.entries
        have past := withinBudget_over target replaced total candidates.ascending fresh
        rw [← spent] at fits
        generalize withinBudget replaced total candidates.entries = judged
          at fits inside placed past
        obtain ⟨kept, cut⟩ := judged
        dsimp only at fits inside placed past ⊢
        have apart : kept.Pairwise fun a b => (rowOf target a).key ≠ (rowOf target b).key := by
          refine List.Pairwise.sublist inside (List.pairwise_map.mpr ?_)
          refine candidates.ascending.imp_of_mem ?_
          intro first second member also below
          exact rowOf_apart target (fresh first member) (fresh second also) (ne_of_lt below)
        refine ⟨⟨upsert_keys target kept clean.keys, ?_, ?_⟩, target, kept, rfl, held, ?_, ?_,
          upsert_written target left apart, ?_, ?_⟩
        · intro first member second also fleet event
          have own := only_upsert only kept
          by_cases here : first.inEvent target.fleetId target.eventId = true
          · have there : second.inEvent target.fleetId target.eventId = true := by
              rw [ToolCallRow.inEvent, decide_eq_true_eq, ← fleet, ← event]
              exact of_decide_eq_true here
            rw [own first member here, own second also there]
          · have before : ∀ row ∈ upsert target kept left,
                row.inEvent target.fleetId target.eventId ≠ true → row ∈ left := by
              intro row written elsewhere
              rcases upsert_origin target kept row written with old | new
              · exact old
              · exact absurd (decide_eq_true ⟨new.1, new.2.1⟩) elsewhere
            have there : second.inEvent target.fleetId target.eventId ≠ true := by
              intro inside
              apply here
              rw [ToolCallRow.inEvent, decide_eq_true_eq, fleet, event]
              exact of_decide_eq_true inside
            exact clean.fences first (before first member here) second (before second also there)
              fleet event
        · intro fleetId eventId
          by_cases here : target.fleetId = fleetId ∧ target.eventId = eventId
          · obtain ⟨rfl, rfl⟩ := here
            exact fits
          · rw [upsert_elsewhere here]
            exact clean.budget fleetId eventId
        · have all := narrowed.placed
          rw [SortedMap.values, List.map_map] at all
          rw [List.map_append, ← List.append_assoc]
          have swapped : (kept.map Admissible.position ++ skipped.map Skip.position ++
              cut.map Skip.position).Perm
              (kept.map Admissible.position ++ cut.map Skip.position ++
                skipped.map Skip.position) := by
            rw [List.append_assoc, List.append_assoc]
            exact List.perm_append_comm.append_left _
          exact (swapped.trans (placed.append_right _)).trans all
        · intro admissible member
          obtain ⟨entry, listed, rfl⟩ := List.mem_map.mp (inside.subset member)
          exact (narrowed.kept _ _ ((candidates.mem_entries_iff _ _).mp listed)).2.2
        · intro key apart own
          rw [upsert_others target apart, drop key own]
        · intro skip member budget
          rcases List.mem_append.mp member with narrowly | dear
          · exact absurd budget (narrowed.reasons skip narrowly)
          · obtain ⟨entry, listed, same, apart⟩ := past skip dear
            have read_ := (narrowed.kept _ _ ((candidates.mem_entries_iff _ _).mp listed)).2.2
            refine ⟨entry.2, same ▸ read_, ?_⟩
            rw [upsert_others target apart, drop _ fun _ _ => rfl]
      · rw [keepRecords, if_neg holds]
        exact ⟨sound, rfl⟩

theorem Sound.step {rows : List ToolCallRow} (sound : Sound rows)
    (read : String → Option ToolCallRecord) (event : StoreEvent) :
    Sound (Stored.step read rows event) := by
  cases event with
  | posted post => exact (sound.posted read post).1
  | settled fleetId eventId fence => exact sound.filter _
  | deleted fleetId eventId => exact sound.filter _

theorem sound_empty : Sound [] :=
  ⟨List.nodup_nil, fun _ member _ _ _ _ => absurd member List.not_mem_nil,
    fun _ _ => Nat.zero_le _⟩

/-- Over any posts, settlements and deletions: the table stays sound, and the next post
accounts for each of its records. -/
theorem details_kept (read : String → Option ToolCallRecord) (events : List StoreEvent) :
    let rows := Run.final (step read) [] events
    (∀ fleetId eventId, eventBytes fleetId eventId rows ≤ detailEventMaxBytes) ∧
      (rows.map fun row => (row.fleetId, row.eventId, row.sequence)).Nodup ∧
      ∀ post, PostKept read post rows := by
  intro rows
  have sound := Run.invariant_of_step Sound (fun _ event held => held.step read event)
    sound_empty events rows (Run.final_mem_states _ _ _)
  exact ⟨sound.budget, sound.one, fun post => (sound.posted read post).2⟩

end Agentsfleet.Tool.Stored
