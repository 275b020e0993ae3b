import Agentsfleet.Pending.Tabs

/-!
# What every tab holds

A tab's own sends and the dismissals that stand, and the entries of every copy of the ledger
there is: in storage, in the tabs and on the way to them.
-/

set_option autoImplicit false

namespace Agentsfleet.Pending

open Agentsfleet.Library

/-! ## What holds of every ledger there is -/

/-- Entries of distinct ids, none from the future, and none that is not a tombstone later than
a dismissal of its id that stands. -/
structure Fit (now : Nat) (standing : List Dismissal) (entries : Entries) : Prop where
  distinct : entries.ids.Nodup
  past : ∀ entry ∈ entries, entry.submittedAtMs ≤ now
  older : ∀ entry ∈ entries, entry.state ≠ .dismissed → ∀ dismissal ∈ standing,
    dismissal.1 = entry.operationId → entry.submittedAtMs ≤ dismissal.2

section Fits

variable {now : Nat} {standing : List Dismissal} {entries : Entries}

theorem fit_nil : Fit now standing [] :=
  ⟨List.nodup_nil, fun _ member => absurd member List.not_mem_nil,
    fun _ member => absurd member List.not_mem_nil⟩

theorem Fit.mono (fit : Fit now standing entries) {now' : Nat} {standing' : List Dismissal}
    (later : now ≤ now') (fewer : ∀ dismissal ∈ standing', dismissal ∈ standing) :
    Fit now' standing' entries :=
  ⟨fit.distinct, fun entry member => Nat.le_trans (fit.past entry member) later,
    fun entry member shown dismissal stands =>
      fit.older entry member shown dismissal (fewer dismissal stands)⟩

theorem Fit.dismissal (fit : Fit now standing entries) (id : String) :
    Fit now ((id, now) :: standing) entries := by
  refine ⟨fit.distinct, fit.past, fun entry member shown dismissal stands same => ?_⟩
  rcases List.mem_cons.mp stands with rfl | stands
  · exact fit.past entry member
  · exact fit.older entry member shown dismissal stands same

theorem Fit.sublist (fit : Fit now standing entries) {fewer : Entries}
    (part : fewer.Sublist entries) : Fit now standing fewer :=
  ⟨fit.distinct.sublist (part.map _), fun entry member => fit.past entry (part.subset member),
    fun entry member => fit.older entry (part.subset member)⟩

theorem Fit.merge {held : Entries} {unsaved own : List String} (first : Fit now standing entries)
    (second : Fit now standing held) :
    Fit now standing (mergeIncoming entries held unsaved own) := by
  refine ⟨mergeIncoming_nodup first.distinct second.distinct, fun entry member => ?_,
    fun entry member => ?_⟩
  · rcases mem_mergeIncoming member with there_ | there_
    · exact first.past entry there_
    · exact second.past entry there_
  · rcases mem_mergeIncoming member with there_ | there_
    · exact first.older entry there_
    · exact second.older entry there_

theorem Fit.map (fit : Fit now standing entries) {change : PendingSend → PendingSend}
    (id : ∀ entry, (change entry).operationId = entry.operationId)
    (past : ∀ entry ∈ entries, (change entry).submittedAtMs ≤ now)
    (shown : ∀ entry, (change entry).state ≠ .dismissed →
      entry.state ≠ .dismissed ∧ (change entry).submittedAtMs = entry.submittedAtMs) :
    Fit now standing (entries.map change) := by
  refine ⟨?_, ?_, ?_⟩
  · unfold Entries.ids
    rw [List.map_map]
    have same : (PendingSend.operationId ∘ change) = PendingSend.operationId := funext id
    rw [same]
    exact fit.distinct
  · intro entry member
    obtain ⟨given, there_, rfl⟩ := List.mem_map.mp member
    exact past given there_
  · intro entry member open_ dismissal stands same
    obtain ⟨given, there_, rfl⟩ := List.mem_map.mp member
    obtain ⟨before, stamp⟩ := shown given open_
    rw [stamp]
    exact fit.older given there_ before dismissal stands (same.trans (id given))

end Fits

/-! ## What holds of every tab -/

/-- A tab's own sends, but for the ones it may `lack`, are in flight in its ledger, and its
standing dismissals are there. -/
structure Holds (now : Nat) (standing : List Dismissal) (lack : List String) (tab : Tab) :
    Prop where
  ledger : Fit now standing tab.entries
  stored : ∀ entries ∈ tab.stored, Fit now standing entries
  late : ∀ entries ∈ tab.late, Fit now standing entries
  own : ∀ id ∈ tab.ownInFlight, id ∉ lack → Sends tab.entries id
  stands : ∀ dismissal ∈ tab.held, dismissal ∈ standing
  buried : ∀ dismissal ∈ tab.held, now - dismissal.2 < pendingSendTtlMs →
    Buried tab.entries dismissal.1 dismissal.2

/-- The ids only tab `n` may lack. -/
def only (n : Nat) (ids : List String) (i : Nat) : List String := if i = n then ids else []

structure Good (lack : Nat → List String) (w : World) : Prop where
  storage : Fit w.now w.standing w.storage
  tabs : ∀ (i : Nat) (tab : Tab), w.tabs[i]? = some tab → Holds w.now w.standing (lack i) tab

theorem Good.absent {n : Nat} {ids gone : List String} {w : World} (good : Good (only n ids) w)
    (absent : w.tabs[n]? = none) : Good (only n gone) w := by
  refine ⟨good.storage, fun i tab there_ => ?_⟩
  have apart : i ≠ n := by
    intro same
    rw [same, absent] at there_
    cases there_
  have holds := good.tabs i tab there_
  rw [only, if_neg apart] at holds ⊢
  exact holds

theorem Holds.mono {now now' : Nat} {standing : List Dismissal} {lack lack' : List String}
    {tab : Tab} (holds : Holds now standing lack tab) (later : now ≤ now')
    (more : ∀ id ∈ lack, id ∈ lack') : Holds now' standing lack' tab where
  ledger := holds.ledger.mono later fun _ => id
  stored := fun entries member => (holds.stored entries member).mono later fun _ => id
  late := fun entries member => (holds.late entries member).mono later fun _ => id
  own := fun id mine present => holds.own id mine fun missing => present (more id missing)
  stands := holds.stands
  buried := fun dismissal held fresh => holds.buried dismissal held (by omega)

section Worlds

variable {lack : Nat → List String} {w : World}

theorem only_nil (n : Nat) : only n [] = fun _ => [] := by
  funext i
  exact ite_self []

theorem Good.setTab {n : Nat} {ids gone : List String} (good : Good (only n ids) w) {tab : Tab}
    (holds : Holds w.now w.standing gone tab) : Good (only n gone) (w.setTab n tab) := by
  refine ⟨good.storage, fun i other found => ?_⟩
  rw [World.setTab, List.getElem?_set] at found
  split at found
  · rename_i same
    subst same
    split at found
    · rw [← Option.some.inj found, only, if_pos rfl]
      exact holds
    · cases found
  · rename_i apart
    have before := good.tabs i other found
    rw [only, if_neg (fun same => apart same.symm)] at before ⊢
    exact before

theorem Good.write (good : Good lack w) (n : Nat) {value : Entries}
    (fit : Fit w.now w.standing value) : Good lack (w.write n value) := by
  unfold World.write
  split
  · exact good
  · refine ⟨fit, fun i tab found => ?_⟩
    rw [List.getElem?_mapIdx, Option.map_eq_some_iff] at found
    obtain ⟨before, there_, rfl⟩ := found
    have holds := good.tabs i before there_
    split
    · exact holds
    · refine { holds with late := fun entries member => ?_ }
      rcases List.mem_append.mp member with earlier | last
      · exact holds.late entries earlier
      · rw [List.mem_singleton.mp last]
        exact fit

theorem Good.lift (good : Good lack w) (ids : List String) : Good lack (w.lift ids) := by
  have fewer : ∀ dismissal ∈ (w.lift ids).standing, dismissal ∈ w.standing :=
    fun dismissal member => (List.mem_filter.mp member).1
  refine ⟨good.storage.mono (Nat.le_refl _) fewer, fun i tab found => ?_⟩
  rw [World.lift, List.getElem?_map, Option.map_eq_some_iff] at found
  obtain ⟨before, there_, rfl⟩ := found
  have holds := good.tabs i before there_
  refine ⟨holds.ledger.mono (Nat.le_refl _) fewer,
    fun entries member => (holds.stored entries member).mono (Nat.le_refl _) fewer,
    fun entries member => (holds.late entries member).mono (Nat.le_refl _) fewer,
    holds.own, fun dismissal member => ?_, fun dismissal member => ?_⟩
  · obtain ⟨held, stays⟩ := List.mem_filter.mp member
    exact List.mem_filter.mpr ⟨holds.stands dismissal held, stays⟩
  · exact holds.buried dismissal (List.mem_filter.mp member).1

theorem Good.mark (good : Good lack w) : Good lack w.mark := by
  refine ⟨good.storage, fun i tab found => ?_⟩
  rw [World.mark, List.getElem?_map, Option.map_eq_some_iff] at found
  obtain ⟨before, there_, rfl⟩ := found
  have holds := good.tabs i before there_
  refine { holds with stands := fun dismissal member => ?_, buried := fun dismissal member => ?_ }
  · rcases List.mem_append.mp member with shown | held
    · exact decide_eq_true_iff.mp (List.mem_filter.mp shown).2
    · exact holds.stands dismissal held
  · rcases List.mem_append.mp member with shown | held
    · intro _
      obtain ⟨entry, gone, rfl⟩ := List.mem_map.mp (List.mem_filter.mp shown).1
      obtain ⟨inside, state⟩ := List.mem_filter.mp gone
      exact ⟨entry, inside, rfl, decide_eq_true_iff.mp state, Nat.le_refl _⟩
    · exact holds.buried dismissal held

theorem Good.at_ {n : Nat} {ids : List String} (good : Good (only n ids) w) {tab : Tab}
    (found : w.tabs[n]? = some tab) : Holds w.now w.standing ids tab := by
  have holds := good.tabs n tab found
  rw [only, if_pos rfl] at holds
  exact holds

theorem Good.widen {n : Nat} (good : Good (fun _ => []) w) (ids : List String) :
    Good (only n ids) w :=
  ⟨good.storage, fun i tab found => (good.tabs i tab found).mono (Nat.le_refl _)
    fun _ missing => absurd missing List.not_mem_nil⟩

/-! ## Reading -/

theorem Good.sweepExpired {n : Nat} {ids : List String} (good : Good (only n ids) w) :
    Good (only n ids) (w.sweepExpired n) := by
  unfold World.sweepExpired
  split
  · rename_i tab found
    have holds := good.at_ found
    split
    · exact good
    · have swept : Good (only n ids) (w.setTab n { tab with swept := true, stored := none }) :=
        good.setTab { holds with stored := fun _ member => by cases member }
      dsimp only
      split
      · exact swept.write n fit_nil
      · exact swept
  · exact good

theorem World.write_same (w : World) (n : Nat) (value : Entries) :
    (w.write n value).now = w.now ∧ (w.write n value).standing = w.standing := by
  unfold World.write
  split <;> exact ⟨rfl, rfl⟩

theorem World.sweepExpired_same (w : World) (n : Nat) :
    (w.sweepExpired n).now = w.now ∧ (w.sweepExpired n).standing = w.standing := by
  unfold World.sweepExpired
  split
  · split
    · exact ⟨rfl, rfl⟩
    · dsimp only
      split
      · exact World.write_same _ n []
      · exact ⟨rfl, rfl⟩
  · exact ⟨rfl, rfl⟩

theorem World.read_same (w : World) (n : Nat) :
    (w.read n).now = w.now ∧ (w.read n).standing = w.standing := by
  unfold World.read
  split
  · split
    · exact ⟨rfl, rfl⟩
    · exact w.sweepExpired_same n
  · exact ⟨rfl, rfl⟩

theorem Good.read {n : Nat} {ids : List String} (good : Good (only n ids) w) :
    Good (only n ids) (w.read n) := by
  unfold World.read
  split
  · rename_i tab found
    have holds := good.at_ found
    split
    · exact good
    · rename_i unread
      have swept := good.sweepExpired
      obtain ⟨now, standing⟩ := w.sweepExpired_same n
      have empty : tab.entries = [] := by
        rw [Tab.entries, unread]
        rfl
      refine swept.setTab ?_
      refine ⟨?_, (fun _ member => by cases member), ?_, ?_, ?_, ?_⟩
      · refine (swept.storage.sublist (live_sublist _ _)).map ?_ ?_ ?_
        · intro entry
          split <;> rfl
        · intro entry member
          have past := swept.storage.past entry ((live_sublist _ _).subset member)
          split <;> exact past
        · intro entry
          split
          · rename_i sending
            intro _
            exact ⟨by rw [sending.1]; decide, rfl⟩
          · exact fun shown => ⟨shown, rfl⟩
      · rw [now, standing]
        exact holds.late
      · intro id mine present
        obtain ⟨_, member, -⟩ := empty ▸ holds.own id mine present
        cases member
      · rw [standing]
        exact holds.stands
      · intro dismissal held fresh
        rw [now] at fresh
        have buried := holds.buried dismissal held fresh
        rw [empty] at buried
        obtain ⟨_, member, -⟩ := buried
        cases member
  · exact good

end Worlds

end Agentsfleet.Pending
