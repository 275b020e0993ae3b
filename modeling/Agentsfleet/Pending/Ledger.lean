import Mathlib.Data.List.Basic
import Mathlib.Data.List.Nodup

/-!
# The ledger of unresolved sends

One fleet's sends that are not settled, in the shape storage keeps them, and how a tab merges
what storage says with what it holds.
-/

set_option autoImplicit false

namespace Agentsfleet.Pending

inductive PendingSendState
  | sending
  | refused
  | session
  | unknown
  | conflict
  | dismissed
  deriving DecidableEq, Repr

inductive PendingSendOutcome
  | refused
  | session
  | unknown
  | conflict
  deriving DecidableEq, Repr

def PendingSendOutcome.state : PendingSendOutcome → PendingSendState
  | .refused => .refused
  | .session => .session
  | .unknown => .unknown
  | .conflict => .conflict

structure PendingSend where
  operationId : String
  text : String
  state : PendingSendState
  submittedAtMs : Nat
  deriving DecidableEq, Repr

abbrev Entries := List PendingSend

def Entries.ids (entries : Entries) : List String := entries.map PendingSend.operationId

/-- How long an unresolved send stays recoverable. -/
def pendingSendTtlMs : Nat := 24 * 3600000

def maxPendingSends : Nat := 20

def live (entries : Entries) (nowMs : Nat) : Entries :=
  entries.filter fun entry => nowMs - entry.submittedAtMs < pendingSendTtlMs

/-- The sends the cap drops: the oldest ended ones, tombstones after every other. -/
def evicted (entries : Entries) : Entries :=
  let excess := entries.length - maxPendingSends
  let ended := entries.filter fun entry => entry.state ≠ .sending
  let byEviction := ended.filter (fun entry => entry.state ≠ .dismissed) ++
    ended.filter (fun entry => entry.state = .dismissed)
  byEviction.take excess

/-- The newest `maxPendingSends`, never dropping a send still in flight. -/
def capped (entries : Entries) : Entries :=
  if entries.length ≤ maxPendingSends then entries
  else
    let dropped := (evicted entries).ids
    entries.filter fun entry => entry.operationId ∉ dropped

def tombstoneRank (incoming mine : PendingSend) : Option PendingSend :=
  if incoming.state ≠ .dismissed ∧ mine.state ≠ .dismissed then none
  else
    let (tombstone, other) :=
      if incoming.state = .dismissed then (incoming, mine) else (mine, incoming)
    some (if other.state ≠ .dismissed ∧ tombstone.submittedAtMs < other.submittedAtMs then other
      else tombstone)

def heldById (held : Entries) (id : String) : Option PendingSend :=
  held.reverse.find? fun entry => entry.operationId = id

def ranked (held : Entries) (entry : PendingSend) : PendingSend :=
  match heldById held entry.operationId with
  | none => entry
  | some mine =>
      let staleSending : Bool := entry.state = .sending && mine.state ≠ .sending
      (tombstoneRank entry mine).getD (if staleSending then mine else entry)

/-- What storage says now, plus this tab's own sends it has not seen yet: those in flight, and
those whose change never reached storage. -/
def mergeIncoming (incoming held : Entries) (unsaved own : List String) : Entries :=
  let merged := incoming.map (ranked held)
  let known := incoming.ids
  let ownId := fun id => id ∈ own ∨ id ∈ unsaved
  let kept := held.filter fun entry => ownId entry.operationId ∧ entry.operationId ∉ known
  merged ++ kept

/-! ## What the cap keeps -/

theorem mem_ids {entries : Entries} {id : String} :
    id ∈ entries.ids ↔ ∃ entry ∈ entries, entry.operationId = id := List.mem_map

theorem live_sublist (entries : Entries) (nowMs : Nat) : (live entries nowMs).Sublist entries :=
  List.filter_sublist

theorem capped_sublist (entries : Entries) : (capped entries).Sublist entries := by
  unfold capped
  split
  · exact List.Sublist.refl entries
  · exact List.filter_sublist

theorem evicted_subset {entries : Entries} {entry : PendingSend} (gone : entry ∈ evicted entries) :
    entry ∈ entries ∧ entry.state ≠ .sending := by
  rcases List.mem_append.mp (List.mem_of_mem_take gone) with first | second
  · have ended := List.mem_filter.mp (List.mem_filter.mp first).1
    exact ⟨ended.1, decide_eq_true_iff.mp ended.2⟩
  · have ended := List.mem_filter.mp (List.mem_filter.mp second).1
    exact ⟨ended.1, decide_eq_true_iff.mp ended.2⟩

theorem mem_capped {entries : Entries} {entry : PendingSend} (member : entry ∈ entries)
    (stays : entry.operationId ∉ (evicted entries).ids) : entry ∈ capped entries := by
  unfold capped
  split
  · exact member
  · rw [List.mem_filter, decide_eq_true_iff]
    exact ⟨member, stays⟩

/-! ## What a merge takes -/

theorem heldById_some {held : Entries} {id : String} {mine : PendingSend}
    (found : heldById held id = some mine) : mine ∈ held ∧ mine.operationId = id := by
  have same := List.find?_some found
  rw [decide_eq_true_iff] at same
  exact ⟨List.mem_reverse.mp (List.mem_of_find?_eq_some found), same⟩

theorem heldById_of_mem {held : Entries} {mine : PendingSend} (distinct : held.ids.Nodup)
    (member : mine ∈ held) : heldById held mine.operationId = some mine := by
  cases found : heldById held mine.operationId with
  | none =>
      have absent := List.find?_eq_none.mp found mine (List.mem_reverse.mpr member)
      simp at absent
  | some other =>
      obtain ⟨there_, same⟩ := heldById_some found
      rw [List.inj_on_of_nodup_map distinct there_ member same]

theorem tombstoneRank_mem {incoming mine taken : PendingSend}
    (rank : tombstoneRank incoming mine = some taken) : taken = incoming ∨ taken = mine := by
  unfold tombstoneRank at rank
  by_cases neither : incoming.state ≠ .dismissed ∧ mine.state ≠ .dismissed
  · rw [if_pos neither] at rank
    cases rank
  · rw [if_neg neither] at rank
    by_cases gone : incoming.state = .dismissed
    · rw [if_pos gone] at rank
      rw [← Option.some.inj rank]
      split
      · exact Or.inr rfl
      · exact Or.inl rfl
    · rw [if_neg gone] at rank
      rw [← Option.some.inj rank]
      split
      · exact Or.inl rfl
      · exact Or.inr rfl

theorem ranked_mem (held : Entries) (entry : PendingSend) :
    (ranked held entry = entry ∨ ranked held entry ∈ held) ∧
      (ranked held entry).operationId = entry.operationId := by
  unfold ranked
  cases found : heldById held entry.operationId with
  | none => exact ⟨Or.inl rfl, rfl⟩
  | some mine =>
      obtain ⟨member, same⟩ := heldById_some found
      dsimp only
      cases rank : tombstoneRank entry mine with
      | none =>
          rw [Option.getD_none]
          split
          · exact ⟨Or.inr member, same⟩
          · exact ⟨Or.inl rfl, rfl⟩
      | some taken =>
          rw [Option.getD_some]
          rcases tombstoneRank_mem rank with rfl | rfl
          · exact ⟨Or.inl rfl, rfl⟩
          · exact ⟨Or.inr member, same⟩

theorem mem_mergeIncoming {incoming held : Entries} {unsaved own : List String}
    {entry : PendingSend} (member : entry ∈ mergeIncoming incoming held unsaved own) :
    entry ∈ incoming ∨ entry ∈ held := by
  rcases List.mem_append.mp member with merged | kept
  · obtain ⟨given, there_, rfl⟩ := List.mem_map.mp merged
    rcases (ranked_mem held given).1 with same | mine
    · rw [same]
      exact Or.inl there_
    · exact Or.inr mine
  · exact Or.inr (List.mem_filter.mp kept).1

theorem mergeIncoming_nodup {incoming held : Entries} {unsaved own : List String}
    (first : incoming.ids.Nodup) (second : held.ids.Nodup) :
    (mergeIncoming incoming held unsaved own).ids.Nodup := by
  have merged : Entries.ids (incoming.map (ranked held)) = incoming.ids := by
    unfold Entries.ids
    rw [List.map_map]
    exact List.map_congr_left fun entry _ => (ranked_mem held entry).2
  unfold mergeIncoming
  dsimp only
  unfold Entries.ids at merged ⊢
  rw [List.map_append, merged]
  refine List.nodup_append.mpr ⟨first, second.sublist (List.filter_sublist.map _), ?_⟩
  intro id known other kept same
  obtain ⟨entry, member, rfl⟩ := List.mem_map.mp kept
  have apart := (List.mem_filter.mp member).2
  rw [decide_eq_true_iff] at apart
  exact apart.2 (same ▸ known)

/-! ## Sends in flight -/

/-- An entry of `id` still in flight. -/
def Sends (entries : Entries) (id : String) : Prop :=
  ∃ entry ∈ entries, entry.operationId = id ∧ entry.state = .sending

theorem Sends.capped {entries : Entries} {id : String} (sends : Sends entries id)
    (distinct : entries.ids.Nodup) : Sends (Pending.capped entries) id := by
  obtain ⟨entry, member, rfl, sending⟩ := sends
  refine ⟨entry, mem_capped member fun taken => ?_, rfl, sending⟩
  obtain ⟨other, out, same⟩ := mem_ids.mp taken
  obtain ⟨inside, ended⟩ := evicted_subset out
  rw [List.inj_on_of_nodup_map distinct inside member same] at ended
  exact ended sending

/-- A send of the tab's own stays in flight through a merge, unless storage shows it ended. -/
theorem Sends.merge {incoming held : Entries} {unsaved own : List String} {id : String}
    (sends : Sends held id) (distinct : held.ids.Nodup) (mine : id ∈ own)
    (spared : ∀ entry ∈ incoming, entry.operationId = id → entry.state = .sending) :
    Sends (mergeIncoming incoming held unsaved own) id := by
  obtain ⟨entry, member, rfl, sending⟩ := sends
  by_cases known : entry.operationId ∈ incoming.ids
  · obtain ⟨given, there_, same⟩ := mem_ids.mp known
    have found : heldById held given.operationId = some entry := by
      rw [same]
      exact heldById_of_mem distinct member
    have shown := spared given there_ same
    have taken : ranked held given = given := by
      unfold ranked
      rw [found]
      simp [tombstoneRank, shown, sending]
    exact ⟨given, List.mem_append_left _ (List.mem_map.mpr ⟨given, there_, taken⟩), same, shown⟩
  · refine ⟨entry, List.mem_append_right _ (List.mem_filter.mpr ⟨member, ?_⟩), rfl, sending⟩
    rw [decide_eq_true_iff]
    exact ⟨Or.inl mine, known⟩

/-! ## Tombstones -/

/-- A tombstone for `id` no older than `stamp`. -/
def Buried (entries : Entries) (id : String) (stamp : Nat) : Prop :=
  ∃ entry ∈ entries, entry.operationId = id ∧ entry.state = .dismissed ∧
    stamp ≤ entry.submittedAtMs

theorem Buried.hidden {entries : Entries} {id : String} {stamp : Nat}
    (buried : Buried entries id stamp) (distinct : entries.ids.Nodup) :
    ∀ entry ∈ entries, entry.operationId = id → entry.state = .dismissed := by
  intro entry member same
  obtain ⟨tombstone, there_, known, dismissed, -⟩ := buried
  rw [List.inj_on_of_nodup_map distinct member there_ (same.trans known.symm)]
  exact dismissed

theorem ranked_dismissed {incoming mine : PendingSend} (dismissed : mine.state = .dismissed)
    (older : incoming.state ≠ .dismissed → incoming.submittedAtMs ≤ mine.submittedAtMs) :
    tombstoneRank incoming mine = some incoming ∧ incoming.state = .dismissed ∨
      tombstoneRank incoming mine = some mine := by
  unfold tombstoneRank
  rw [if_neg (fun none => none.2 dismissed)]
  by_cases both : incoming.state = .dismissed
  · rw [if_pos both]
    dsimp only
    rw [if_neg (fun late => late.1 dismissed)]
    exact Or.inl ⟨rfl, both⟩
  · rw [if_neg both]
    dsimp only
    have := older both
    rw [if_neg (fun late => by omega)]
    exact Or.inr rfl

/-- What a merge must bring for a tombstone to outlast it. -/
structure Remembered (incoming : Entries) (mine : List String) (id : String) (stamp : Nat) :
    Prop where
  known : id ∈ incoming.ids ∨ id ∈ mine
  later : ∀ entry ∈ incoming, entry.operationId = id → entry.state = .dismissed →
    stamp ≤ entry.submittedAtMs

theorem Buried.merge {incoming held : Entries} {unsaved own : List String} {id : String}
    {stamp : Nat} (buried : Buried held id stamp) (distinct : held.ids.Nodup)
    (remembered : Remembered incoming (own ++ unsaved) id stamp)
    (older : ∀ entry ∈ incoming, entry.operationId = id → entry.state ≠ .dismissed →
      entry.submittedAtMs ≤ stamp) :
    Buried (mergeIncoming incoming held unsaved own) id stamp := by
  obtain ⟨tombstone, member, rfl, dismissed, late⟩ := buried
  by_cases known : tombstone.operationId ∈ incoming.ids
  · obtain ⟨entry, there_, same⟩ := mem_ids.mp known
    have found : heldById held entry.operationId = some tombstone := by
      rw [same]
      exact heldById_of_mem distinct member
    refine ⟨ranked held entry, List.mem_append_left _ (List.mem_map_of_mem there_),
      (ranked_mem held entry).2.trans same, ?_⟩
    unfold ranked
    rw [found]
    dsimp only
    have below : entry.state ≠ .dismissed → entry.submittedAtMs ≤ tombstone.submittedAtMs :=
      fun shown => Nat.le_trans (older entry there_ same shown) late
    rcases ranked_dismissed dismissed below with ⟨rank, gone⟩ | rank
    · rw [rank]
      exact ⟨gone, remembered.later entry there_ same gone⟩
    · rw [rank]
      exact ⟨dismissed, late⟩
  · have mine := remembered.known.resolve_left known
    rw [List.mem_append] at mine
    refine ⟨tombstone, List.mem_append_right _ (List.mem_filter.mpr ⟨member, ?_⟩), rfl, dismissed,
      late⟩
    rw [decide_eq_true_iff]
    exact ⟨mine, known⟩

end Agentsfleet.Pending
