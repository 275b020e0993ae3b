import Agentsfleet.Pending.Holds

/-!
# Sends survive other tabs

What stays so in every tab while no value that a tab merges shows a send it has in flight as
ended, or makes it forget a dismissal that stands.
-/

set_option autoImplicit false

namespace Agentsfleet.Pending

open Agentsfleet.Library

/-! ## The conditions -/

/-- A value the tab merges knows of each dismissal that the tab still holds, unless the send is
the tab's own, and of none that is older. -/
def World.Remembers (w : World) (tab : Tab) (value : Entries) : Prop :=
  ∀ dismissal ∈ tab.held, w.now - dismissal.2 < pendingSendTtlMs →
    Remembered (live value w.now) (tab.ownInFlight ++ tab.unsaved) dismissal.1 dismissal.2

/-- A value the tab merges shows each send the tab has in flight, bar those it is `ending`, as
`sending` where it names it. -/
def World.Spares (w : World) (tab : Tab) (ending : List String) (value : Entries) : Prop :=
  ∀ entry ∈ live value w.now, entry.operationId ∈ tab.ownInFlight →
    entry.operationId ∉ ending → entry.state = .sending

/-- What the tab merges when it writes for `operationId`. -/
def World.Safe (w : World) (n : Nat) (operationId : String) : Prop :=
  ∀ tab ∈ (w.read n).tabs[n]?,
    (w.read n).Remembers tab (tab.stored.getD (w.read n).storage) ∧
      (w.read n).Spares tab [operationId] (tab.stored.getD (w.read n).storage)

def Ok (w : World) : Event → Prop
  | .beginPendingSend n operationId _ _ =>
      ((w.lift [operationId]).setOwn n (operationId :: ·)).Safe n operationId
  | .settlePendingSend n operationId _ => (w.lift [operationId]).Safe n operationId
  | .dismissPendingSend n operationId _ =>
      World.Safe { w with standing := (operationId, w.now) :: w.standing } n operationId
  | .failPendingSend n operationId _ _ => w.Safe n operationId
  | .ownerGone n operationId => ∀ tab ∈ w.tabs[n]?, tab.watches operationId = true →
      w.Remembers tab w.storage ∧ w.Spares tab [] w.storage
  | .onStorage n => ∀ tab ∈ w.tabs[n]?, ∀ value ∈ tab.late.head?,
      w.Remembers tab value ∧ w.Spares tab [] value
  | _ => True

structure Sound (w : World) (operationId : String) (change : Entries → Entries) : Prop where
  fit : ∀ entries, Fit w.now w.standing entries → Fit w.now w.standing (change entries)
  others : ∀ entries id, id ≠ operationId → Sends entries id → Sends (change entries) id
  buried : ∀ entries, Fit w.now w.standing entries → ∀ dismissal ∈ w.standing,
    Buried entries dismissal.1 dismissal.2 → Buried (change entries) dismissal.1 dismissal.2

section Writes

variable {w : World} {n : Nat} {operationId : String} {change : Entries → Entries}
  {gone : List String} {refused : Bool}

theorem Holds.merge {now : Nat} {standing : List Dismissal} {lack : List String} {tab : Tab}
    (holds : Holds now standing lack tab) {value : Entries} (fit : Fit now standing value) :
    Fit now standing (tab.merge value now) :=
  (fit.sublist (live_sublist value now)).merge holds.ledger

theorem Holds.merge_own {lack : List String} {tab : Tab}
    (holds : Holds w.now w.standing lack tab) {value : Entries}
    (spares : w.Spares tab lack value) {id : String} (mine : id ∈ tab.ownInFlight)
    (present : id ∉ lack) : Sends (tab.merge value w.now) id := by
  apply (holds.own id mine present).merge holds.ledger.distinct mine
  rintro entry member rfl
  exact spares entry member mine present

theorem Holds.merge_buried {lack : List String} {tab : Tab}
    (holds : Holds w.now w.standing lack tab) {value : Entries}
    (fit : Fit w.now w.standing value) (remembers : w.Remembers tab value)
    {dismissal : Dismissal} (held : dismissal ∈ tab.held)
    (fresh : w.now - dismissal.2 < pendingSendTtlMs) :
    Buried (tab.merge value w.now) dismissal.1 dismissal.2 := by
  refine (holds.buried dismissal held fresh).merge holds.ledger.distinct
    (remembers dismissal held fresh) fun entry member same shown => ?_
  exact fit.older entry ((live_sublist value w.now).subset member) shown dismissal
    (holds.stands dismissal held) same.symm

theorem Buried.capped {entries : Entries} {id : String} {stamp : Nat}
    (buried : Buried entries id stamp) (distinct : entries.ids.Nodup)
    (stays : id ∉ Entries.ids ((evicted entries).filter fun entry => entry.state = .dismissed)) :
    Buried (Pending.capped entries) id stamp := by
  obtain ⟨tombstone, member, rfl, state, late⟩ := buried
  refine ⟨tombstone, mem_capped member fun taken => stays ?_, rfl, state, late⟩
  obtain ⟨entry, out, same⟩ := mem_ids.mp taken
  have equal := List.inj_on_of_nodup_map distinct (evicted_subset out).1 member same
  rw [equal] at out
  refine mem_ids.mpr ⟨tombstone, List.mem_filter.mpr ⟨out, ?_⟩, rfl⟩
  exact decide_eq_true_iff.mpr state

/-- A write that is safe leaves every tab what it holds: the cap takes no send in flight. -/
theorem Good.mutate (good : Good (only n [operationId]) w) (sound : Sound w operationId change)
    (safe : w.Safe n operationId)
    (last : operationId ∈ gone ∨ ∀ entries, Sends (change entries) operationId) :
    Good (only n gone) (w.mutate n operationId change refused) := by
  have read := good.read
  obtain ⟨now, standing⟩ := w.read_same n
  unfold World.mutate
  dsimp only
  unfold World.Safe at safe
  generalize w.read n = r at read now standing safe
  cases found : r.tabs[n]? with
  | none => exact read.absent found
  | some tab =>
      have holds := read.at_ found
      obtain ⟨remembers, spares⟩ := safe tab found
      have value : Fit r.now r.standing (tab.stored.getD r.storage) := by
        cases half : tab.stored with
        | none => exact read.storage
        | some stored => exact holds.stored stored half
      have base := holds.merge value
      dsimp only
      generalize merged : tab.merge (tab.stored.getD r.storage) r.now = entries at base
      have changed : Fit r.now r.standing (change entries) := by
        rw [now, standing] at base ⊢
        exact sound.fit entries base
      have next := changed.sublist (capped_sublist (change entries))
      generalize unburied : Entries.ids ((evicted (change entries)).filter fun entry =>
        entry.state = .dismissed) = ids
      have lifted := read.lift ids
      have fewer : ∀ dismissal ∈ (r.lift ids).standing, dismissal ∈ r.standing :=
        fun dismissal member => (List.mem_filter.mp member).1
      have written : Good (only n gone) ((r.lift ids).setTab n
          (({ tab with
            ledger := some (capped (change entries))
            stored := none
            unsaved := if refused then operationId :: tab.unsaved else [] } : Tab).lift ids)) := by
        have there_ : (r.lift ids).tabs[n]? = some (tab.lift ids) := by
          rw [World.lift, List.getElem?_map, found]
          rfl
        have before := lifted.at_ there_
        refine lifted.setTab ⟨next.mono (Nat.le_refl _) fewer,
          (fun _ member => by cases member), before.late, ?_, before.stands, ?_⟩
        · intro id mine present
          refine Sends.capped ?_ changed.distinct
          by_cases same : id = operationId
          · subst same
            exact last.resolve_left present entries
          · have inside := holds.merge_own spares mine
              (fun single => same (List.mem_singleton.mp single))
            rw [merged] at inside
            exact sound.others entries id same inside
        · intro dismissal member fresh
          obtain ⟨held, stays⟩ := List.mem_filter.mp member
          have buried := holds.merge_buried value remembers held fresh
          rw [merged] at buried
          have stands := holds.stands dismissal held
          rw [now, standing] at base
          rw [standing] at stands
          refine (sound.buried entries base dismissal stands buried).capped changed.distinct ?_
          rw [unburied]
          exact of_decide_eq_true stays
      cases refused with
      | true => exact written
      | false => exact written.write n (next.mono (Nat.le_refl _) fewer)

theorem Good.setOwn {ids : List String} (good : Good (only n ids) w)
    {own : List String → List String}
    (covers : ∀ mine id, id ∈ own mine → id ∉ gone → id ∈ mine ∧ id ∉ ids) :
    Good (only n gone) (w.setOwn n own) := by
  unfold World.setOwn
  cases found : w.tabs[n]? with
  | none => exact good.absent found
  | some tab =>
      have holds := good.at_ found
      refine good.setTab { holds with own := fun id mine present => ?_ }
      obtain ⟨before, covered⟩ := covers _ id mine present
      exact holds.own id before covered

theorem World.setOwn_same (w : World) (n : Nat) (own : List String → List String) :
    (w.setOwn n own).now = w.now ∧ (w.setOwn n own).standing = w.standing := by
  unfold World.setOwn
  split <;> exact ⟨rfl, rfl⟩

theorem Good.finish (good : Good (only n []) w) (sound : Sound w operationId change)
    (safe : w.Safe n operationId) :
    Good (only n []) (w.finish n operationId change refused) := by
  rw [only_nil] at good
  have written : Good (only n [operationId]) (w.mutate n operationId change refused) :=
    (good.widen [operationId]).mutate sound safe (Or.inl List.mem_cons_self)
  refine written.setOwn fun mine id kept _ => ?_
  obtain ⟨member, apart⟩ := List.mem_filter.mp kept
  exact ⟨member, fun single => of_decide_eq_true apart (List.mem_singleton.mp single)⟩

/-! ## The changes -/

theorem sound_began (text : String) (lifted : ∀ dismissal ∈ w.standing, dismissal.1 ≠ operationId) :
    Sound w operationId (World.began operationId text w.now) := by
  refine ⟨fun entries fit => ?_, fun entries id apart member => ?_,
    fun entries _ dismissal stands buried => ?_⟩
  · refine ⟨?_, fun entry member => ?_, fun entry member shown dismissal stands same => ?_⟩
    · unfold World.began Entries.ids
      rw [List.map_append]
      refine List.nodup_append.mpr ⟨fit.distinct.sublist (List.filter_sublist.map _),
        List.nodup_singleton _, ?_⟩
      intro id kept other single same
      obtain ⟨entry, member, rfl⟩ := List.mem_map.mp kept
      have apart := of_decide_eq_true (List.mem_filter.mp member).2
      exact apart (same.trans (List.mem_singleton.mp single))
    · rcases List.mem_append.mp member with kept | single
      · exact fit.past entry (List.mem_filter.mp kept).1
      · have same := List.mem_singleton.mp single
        exact Nat.le_of_eq (by rw [same])
    · rcases List.mem_append.mp member with kept | single
      · exact fit.older entry (List.mem_filter.mp kept).1 shown dismissal stands same
      · rw [List.mem_singleton.mp single] at same
        exact absurd same (lifted dismissal stands)
  · obtain ⟨entry, there_, rfl, sending⟩ := member
    exact ⟨entry, List.mem_append_left _ (List.mem_filter.mpr
      ⟨there_, decide_eq_true_iff.mpr apart⟩), rfl, sending⟩
  · obtain ⟨entry, there_, same, rest⟩ := buried
    refine ⟨entry, List.mem_append_left _ (List.mem_filter.mpr ⟨there_, ?_⟩), same, rest⟩
    rw [decide_eq_true_iff, same]
    exact lifted dismissal stands

theorem sound_settled (lifted : ∀ dismissal ∈ w.standing, dismissal.1 ≠ operationId) :
    Sound w operationId (World.settled operationId) := by
  refine ⟨fun entries fit => fit.sublist List.filter_sublist, fun entries id apart member => ?_,
    fun entries _ dismissal stands buried => ?_⟩
  · obtain ⟨entry, there_, rfl, sending⟩ := member
    exact ⟨entry, List.mem_filter.mpr ⟨there_, decide_eq_true_iff.mpr apart⟩, rfl, sending⟩
  · obtain ⟨entry, there_, same, rest⟩ := buried
    refine ⟨entry, List.mem_filter.mpr ⟨there_, ?_⟩, same, rest⟩
    rw [decide_eq_true_iff, same]
    exact lifted dismissal stands

theorem sound_dismissed : Sound w operationId (World.dismissed operationId w.now) := by
  have id : ∀ entry : PendingSend, (if entry.operationId = operationId then
      { operationId, text := "", state := .dismissed, submittedAtMs := w.now }
      else entry : PendingSend).operationId = entry.operationId := by
    intro entry
    split
    · rename_i same
      exact same.symm
    · rfl
  refine ⟨fun entries fit => fit.map id ?_ ?_, fun entries other apart member => ?_,
    fun entries fit dismissal _ buried => ?_⟩
  · intro entry member
    split
    · exact Nat.le_refl _
    · exact fit.past entry member
  · intro entry
    split
    · exact fun shown => absurd rfl shown
    · exact fun shown => ⟨shown, rfl⟩
  · obtain ⟨entry, there_, rfl, sending⟩ := member
    refine ⟨entry, List.mem_map.mpr ⟨entry, there_, ?_⟩, rfl, sending⟩
    rw [if_neg apart]
  · obtain ⟨entry, there_, same, state, late⟩ := buried
    refine ⟨_, List.mem_map_of_mem there_, (id entry).trans same, ?_⟩
    split
    · exact ⟨rfl, Nat.le_trans late (fit.past entry there_)⟩
    · exact ⟨state, late⟩

theorem sound_failed (outcome : PendingSendOutcome) :
    Sound w operationId (World.failed operationId outcome) := by
  have id : ∀ entry : PendingSend, (if entry.operationId = operationId ∧ entry.state ≠ .dismissed
      then { entry with state := outcome.state } else entry).operationId =
        entry.operationId := by
    intro entry
    split <;> rfl
  refine ⟨fun entries fit => fit.map id ?_ ?_, fun entries other apart member => ?_,
    fun entries fit dismissal _ buried => ?_⟩
  · intro entry member
    have past := fit.past entry member
    split <;> exact past
  · intro entry
    split
    · rename_i both
      exact fun _ => ⟨both.2, rfl⟩
    · exact fun shown => ⟨shown, rfl⟩
  · obtain ⟨entry, there_, rfl, sending⟩ := member
    refine ⟨entry, List.mem_map.mpr ⟨entry, there_, ?_⟩, rfl, sending⟩
    rw [if_neg fun both => apart both.1]
  · obtain ⟨entry, there_, same, state, late⟩ := buried
    refine ⟨_, List.mem_map_of_mem there_, (id entry).trans same, ?_⟩
    rw [if_neg (fun both => both.2 state)]
    exact ⟨state, late⟩

theorem lift_apart (w : World) (operationId : String) :
    ∀ dismissal ∈ (w.lift [operationId]).standing, dismissal.1 ≠ operationId := by
  intro dismissal member same
  have apart := of_decide_eq_true (List.mem_filter.mp member).2
  exact apart (List.mem_singleton.mpr same)

theorem began_sends (text : String) (now : Nat) (entries : Entries) :
    Sends (World.began operationId text now entries) operationId :=
  ⟨_, List.mem_append_right _ (List.mem_singleton_self _), rfl, rfl⟩

/-! ## What a tab hears -/

theorem Good.ownerGone (good : Good (only n []) w)
    (ok : ∀ tab ∈ w.tabs[n]?, tab.watches operationId = true →
      w.Remembers tab w.storage ∧ w.Spares tab [] w.storage) :
    Good (only n []) (w.ownerGone n operationId) := by
  unfold World.ownerGone
  split
  · rename_i tab found
    split
    · rename_i watches
      have holds := good.at_ found
      obtain ⟨remembers, spares⟩ := ok tab found watches
      have others : operationId ∉ tab.ownInFlight := by
        simp only [Tab.watches, Bool.and_eq_true, decide_eq_true_eq] at watches
        exact watches.2
      have base := holds.merge good.storage
      have id : ∀ entry : PendingSend, (if entry.operationId = operationId ∧
          entry.state = .sending then { entry with state := .unknown }
          else entry).operationId = entry.operationId := by
        intro entry
        split <;> rfl
      refine good.setTab ?_
      refine ⟨base.map id ?_ ?_, (fun _ member => by cases member), holds.late,
        fun other mine present => ?_, holds.stands, fun dismissal held fresh => ?_⟩
      · intro entry member
        have past := base.past entry member
        split <;> exact past
      · intro entry
        split
        · rename_i both
          exact fun _ => ⟨by rw [both.2]; decide, rfl⟩
        · exact fun shown => ⟨shown, rfl⟩
      · obtain ⟨entry, there_, rfl, sending⟩ := holds.merge_own spares mine present
        refine ⟨entry, List.mem_map.mpr ⟨entry, there_, ?_⟩, rfl, sending⟩
        rw [if_neg]
        rintro ⟨rfl, -⟩
        exact others mine
      · obtain ⟨entry, there_, same, state, late⟩ :=
          holds.merge_buried good.storage remembers held fresh
        refine ⟨_, List.mem_map_of_mem there_, (id entry).trans same, ?_⟩
        rw [if_neg (fun both => by rw [state] at both; exact absurd both.2 (by decide))]
        exact ⟨state, late⟩
    · exact good
  · exact good

theorem Good.onStorage (good : Good (only n []) w)
    (ok : ∀ tab ∈ w.tabs[n]?, ∀ value ∈ tab.late.head?,
      w.Remembers tab value ∧ w.Spares tab [] value) :
    Good (only n []) (w.onStorage n) := by
  unfold World.onStorage
  split
  · rename_i tab found
    have holds := good.at_ found
    split
    · exact good
    · rename_i value rest late
      obtain ⟨remembers, spares⟩ := ok tab found value (by rw [late]; rfl)
      have fit := holds.late value (by rw [late]; exact List.mem_cons_self)
      have later : ∀ entries ∈ rest, Fit w.now w.standing entries :=
        fun entries member => holds.late entries (by rw [late]; exact List.mem_cons_of_mem _ member)
      refine good.setTab ?_
      cases ledger : tab.ledger with
      | none =>
          have empty : tab.entries = [] := by
            rw [Tab.entries, ledger]
            rfl
          refine ⟨fit_nil, (fun _ member => by cases member), later, ?_, holds.stands, ?_⟩
          · intro id mine present
            have := holds.own id mine present
            rw [empty] at this
            exact this
          · intro dismissal held fresh
            have := holds.buried dismissal held fresh
            rw [empty] at this
            exact this
      | some entries =>
          exact ⟨holds.merge fit, (fun _ member => by cases member), later,
            fun id mine present => holds.merge_own spares mine present, holds.stands,
            fun dismissal held fresh => holds.merge_buried fit remembers held fresh⟩
  · exact good

end Writes

theorem Holds.dismissal {now : Nat} {standing : List Dismissal} {lack : List String} {tab : Tab}
    (holds : Holds now standing lack tab) (id : String) :
    Holds now ((id, now) :: standing) lack tab where
  ledger := holds.ledger.dismissal id
  stored := fun entries member => (holds.stored entries member).dismissal id
  late := fun entries member => (holds.late entries member).dismissal id
  own := holds.own
  stands := fun dismissal held => List.mem_cons_of_mem _ (holds.stands dismissal held)
  buried := holds.buried

/-! ## Runs -/

theorem good_start : Good (fun _ => []) World.start :=
  ⟨fit_nil, fun _ _ found => by cases found⟩

theorem Good.act {w : World} (good : Good (fun _ => []) w) {event : Event} (ok : Ok w event) :
    Good (fun _ => []) (w.act event) := by
  cases event with
  | tick ms =>
      exact ⟨good.storage.mono (Nat.le_add_right _ _) fun _ => id,
        fun i tab found => (good.tabs i tab found).mono (Nat.le_add_right _ _) fun _ => id⟩
  | load locks =>
      refine ⟨good.storage, fun i tab found => ?_⟩
      rcases List.mem_append.mp (List.mem_of_getElem? found) with old | new
      · obtain ⟨j, there_⟩ := List.mem_iff_getElem?.mp old
        exact good.tabs j tab there_
      · rw [List.mem_singleton.mp new]
        exact ⟨fit_nil, (fun _ member => by cases member), (fun _ member => by cases member),
          (fun _ member => by cases member), (fun _ member => by cases member),
          (fun _ member => by cases member)⟩
  | sweepExpired n =>
      rw [← only_nil n] at good ⊢
      exact good.sweepExpired
  | read n =>
      rw [← only_nil n] at good ⊢
      exact good.read
  | look n =>
      rw [← only_nil n] at good ⊢
      have read := good.read
      show Good _ (w.look n)
      unfold World.look
      dsimp only
      split
      · rename_i tab found
        refine read.setTab { read.at_ found with stored := fun entries member => ?_ }
        rw [← Option.some.inj member]
        exact read.storage
      · exact read
  | beginPendingSend n operationId text refused =>
      have begun : Good (only n [operationId])
          ((w.lift [operationId]).setOwn n (operationId :: ·)) := by
        rw [← only_nil n] at good
        refine (good.lift [operationId]).setOwn fun mine id member apart => ?_
        rcases List.mem_cons.mp member with rfl | before
        · exact absurd List.mem_cons_self apart
        · exact ⟨before, List.not_mem_nil⟩
      obtain ⟨-, standing⟩ := (w.lift [operationId]).setOwn_same n (operationId :: ·)
      show Good _ (w.beginPendingSend n operationId text refused)
      unfold World.beginPendingSend
      dsimp only
      have lifted : ∀ dismissal ∈ ((w.lift [operationId]).setOwn n (operationId :: ·)).standing,
          dismissal.1 ≠ operationId := by
        rw [standing]
        exact lift_apart w operationId
      have sound := sound_began text lifted
      rw [← only_nil n]
      exact begun.mutate sound ok (Or.inr (began_sends text _))
  | settlePendingSend n operationId refused =>
      rw [← only_nil n] at good ⊢
      exact (good.lift [operationId]).finish (sound_settled (lift_apart w operationId)) ok
  | dismissPendingSend n operationId refused =>
      rw [← only_nil n] at good ⊢
      have dismissed : Good (only n [])
          { w with standing := (operationId, w.now) :: w.standing } :=
        ⟨good.storage.dismissal operationId, fun i tab found =>
          (good.tabs i tab found).dismissal operationId⟩
      exact dismissed.finish sound_dismissed ok
  | failPendingSend n operationId state refused =>
      rw [← only_nil n] at good ⊢
      exact good.finish (sound_failed state) ok
  | ownerGone n operationId =>
      rw [← only_nil n] at good ⊢
      exact good.ownerGone ok
  | onStorage n =>
      rw [← only_nil n] at good ⊢
      exact good.onStorage ok

/-- A send a tab began and has not ended is in its ledger. -/
def OwnKept (w : World) : Prop :=
  ∀ tab ∈ w.tabs, ∀ id ∈ tab.ownInFlight, ∃ entry ∈ tab.entries, entry.operationId = id

/-- A tab that has had the tombstone of a dismissal that stands shows the send as nothing else,
until the tombstone expires. -/
def StaysDismissed (w : World) : Prop :=
  ∀ tab ∈ w.tabs, ∀ dismissal ∈ tab.held, w.now - dismissal.2 < pendingSendTtlMs →
    ∀ entry ∈ tab.entries, entry.operationId = dismissal.1 → entry.state = .dismissed

instance (w : World) : Decidable (OwnKept w) :=
  inferInstanceAs (Decidable (∀ tab ∈ w.tabs, ∀ id ∈ tab.ownInFlight, ∃ entry ∈ _, _))

instance (w : World) : Decidable (StaysDismissed w) :=
  inferInstanceAs (Decidable (∀ tab ∈ w.tabs, ∀ dismissal ∈ tab.held,
    w.now - dismissal.2 < pendingSendTtlMs → ∀ entry ∈ tab.entries, _ → _))

theorem Good.ownKept {w : World} (good : Good (fun _ => []) w) : OwnKept w := by
  intro tab member id mine
  obtain ⟨i, found⟩ := List.mem_iff_getElem?.mp member
  obtain ⟨entry, inside, same, -⟩ := (good.tabs i tab found).own id mine List.not_mem_nil
  exact ⟨entry, inside, same⟩

theorem Good.staysDismissed {w : World} (good : Good (fun _ => []) w) : StaysDismissed w := by
  intro tab member dismissal held fresh
  obtain ⟨i, found⟩ := List.mem_iff_getElem?.mp member
  have holds := good.tabs i tab found
  exact (holds.buried dismissal held fresh).hidden holds.ledger.distinct

/-- Over any interleaving of the tabs, sends survive and dismissals stay. -/
theorem sends_survive (events : List Event) (ok : Run.Meets World.step Ok World.start events) :
    ∀ w ∈ Run.states World.step World.start events, OwnKept w ∧ StaysDismissed w := by
  intro w reached
  have keeps : ∀ s event, Good (fun _ => []) s → Ok s event → Good (fun _ => []) (s.step event) :=
    fun _ _ good met => (good.act met).mark
  have good := Run.invariant_of_meets keeps good_start ok w reached
  exact ⟨good.ownKept, good.staysDismissed⟩

instance (incoming : Entries) (mine : List String) (id : String) (stamp : Nat) :
    Decidable (Remembered incoming mine id stamp) :=
  decidable_of_iff ((id ∈ incoming.ids ∨ id ∈ mine) ∧ ∀ entry ∈ incoming,
      entry.operationId = id → entry.state = .dismissed → stamp ≤ entry.submittedAtMs)
    ⟨fun both => ⟨both.1, both.2⟩, fun both => ⟨both.known, both.later⟩⟩

instance (w : World) (tab : Tab) (value : Entries) : Decidable (w.Remembers tab value) :=
  inferInstanceAs (Decidable (∀ dismissal ∈ tab.held, _ → Remembered _ _ _ _))

instance (w : World) (tab : Tab) (ending : List String) (value : Entries) :
    Decidable (w.Spares tab ending value) :=
  inferInstanceAs (Decidable (∀ entry ∈ live value w.now, _ → _ → _))

instance (w : World) (n : Nat) (operationId : String) : Decidable (w.Safe n operationId) :=
  inferInstanceAs (Decidable (∀ tab ∈ (w.read n).tabs[n]?,
    (w.read n).Remembers tab (tab.stored.getD (w.read n).storage) ∧
      (w.read n).Spares tab [operationId] (tab.stored.getD (w.read n).storage)))

instance (w : World) : (event : Event) → Decidable (Ok w event)
  | .beginPendingSend .. => inferInstanceAs (Decidable (World.Safe _ _ _))
  | .settlePendingSend .. => inferInstanceAs (Decidable (World.Safe _ _ _))
  | .dismissPendingSend .. => inferInstanceAs (Decidable (World.Safe _ _ _))
  | .failPendingSend .. => inferInstanceAs (Decidable (World.Safe _ _ _))
  | .ownerGone n _ => inferInstanceAs (Decidable (∀ tab ∈ w.tabs[n]?, _ →
      w.Remembers _ _ ∧ w.Spares _ _ _))
  | .onStorage n => inferInstanceAs (Decidable (∀ tab ∈ w.tabs[n]?, ∀ value ∈ tab.late.head?,
      w.Remembers tab value ∧ w.Spares _ _ _))
  | .tick _ | .load _ | .sweepExpired _ | .read _ | .look _ => inferInstanceAs (Decidable True)

/-- Three tabs: the second dismisses what the first failed, and hears of the third's older
write after. -/
def dismissedBefore : List Event :=
  [.load true, .load true, .load true, .read 0, .read 1, .read 2,
    .beginPendingSend 0 "deploy" "deploy it" false, .failPendingSend 0 "deploy" .unknown false,
    .onStorage 1, .onStorage 1, .beginPendingSend 2 "check" "check it" false, .tick 1,
    .dismissPendingSend 1 "deploy" false, .onStorage 1]

theorem sends_survive_dismissedBefore :
    ((Run.final World.step World.start dismissedBefore).tabs.map Tab.held)[1]? =
        some [("deploy", 1), ("deploy", 1)] ∧
      OwnKept (Run.final World.step World.start dismissedBefore) ∧
      StaysDismissed (Run.final World.step World.start dismissedBefore) :=
  ⟨by decide +kernel,
    sends_survive dismissedBefore (by decide +kernel) _ (Run.final_mem_states _ _ _)⟩

/-- Two tabs send one operation again; the other's failure reaches the first before its own
answer, and twenty more sends leave no room. -/
def crowdedOut : List Event :=
  [.load true, .load true, .read 0, .read 1,
    .beginPendingSend 0 "deploy" "deploy it" false, .failPendingSend 0 "deploy" .unknown false,
    .onStorage 1, .onStorage 1, .beginPendingSend 1 "deploy" "deploy it" false,
    .beginPendingSend 0 "deploy" "deploy it" false, .failPendingSend 1 "deploy" .unknown false,
    .onStorage 0, .onStorage 0] ++
  (List.range 20).map fun i => .beginPendingSend 0 (toString i) "another" false

/-- Two writes from before a dismissal reach the tab that made it: the first does not know of
the send, and the second has it as it was. -/
def heardLate : List Event :=
  [.load true, .load true, .read 0, .read 1, .beginPendingSend 1 "check" "check it" false,
    .beginPendingSend 0 "deploy" "deploy it" false, .failPendingSend 0 "deploy" .unknown false,
    .settlePendingSend 1 "check" false, .tick 1, .dismissPendingSend 0 "deploy" false,
    .onStorage 0, .onStorage 0]

theorem sends_lost :
    ¬ OwnKept (Run.final World.step World.start crowdedOut) ∧
      ¬ StaysDismissed (Run.final World.step World.start heardLate) := by
  decide +kernel

end Agentsfleet.Pending
